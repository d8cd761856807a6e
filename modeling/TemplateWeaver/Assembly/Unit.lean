import TemplateWeaver.Assembly.Page

/-!
Units of compilation: a component or a page. Each unit is compiled by itself.
-/
namespace TemplateWeaver

inductive CompilationUnit where
  | component (unit : Component)
  | page (unit : Page)

/-- The code of a unit and what is reported about it. -/
structure Output where
  fileName : String
  code : String
  diagnostics : List Diagnostic
  deriving DecidableEq, Repr

def Output.hasErrors (o : Output) : Bool :=
  o.diagnostics.any Diagnostic.isError

namespace CompilationUnit

def compile (config : Config) : CompilationUnit → Except Fault Output
  | .component unit =>
    match unit.assemble config [] with
    | (.ok code, diagnostics) => .ok { fileName := unit.fileName, code, diagnostics }
    | (.error fault, _) => .error fault
  | .page unit =>
    match unit.assemble config with
    | .ok code => .ok { fileName := unit.fileName, code, diagnostics := [] }
    | .error fault => .error fault

/-- The results of many units, in their order. -/
def compileAll (config : Config) (units : List CompilationUnit) : List (Except Fault Output) :=
  units.map (compile config)

end CompilationUnit

end TemplateWeaver
