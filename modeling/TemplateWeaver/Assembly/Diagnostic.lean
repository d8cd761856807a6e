/-!
Diagnostics: what is reported about a unit without giving it up.
-/
namespace TemplateWeaver

inductive Severity where
  | error
  | warning
  deriving DecidableEq, Repr

def Severity.text : Severity → String
  | .error => "error"
  | .warning => "warning"

structure Diagnostic where
  severity : Severity
  message : String
  file : Option String := none
  deriving DecidableEq, Repr

namespace Diagnostic

def isError (d : Diagnostic) : Bool :=
  d.severity == .error

/-- The file if there is one, the severity and the message. -/
def display (d : Diagnostic) : String :=
  match d.file with
  | some file => file ++ ": " ++ d.severity.text ++ ": " ++ d.message
  | none => d.severity.text ++ ": " ++ d.message

end Diagnostic

end TemplateWeaver
