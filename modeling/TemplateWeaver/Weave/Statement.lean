import TemplateWeaver.Code.Segment
import TemplateWeaver.Source.Mask
import TemplateWeaver.Weave.Names

/-!
Code that holds text of the user's: statements and watches. The text keeps its line structure. What
has to follow it goes on a line of its own when it ends in a line comment.
-/
namespace TemplateWeaver

open Code (Segment)

variable {β : Type}

/-- A text without the semicolons at its end. -/
def dropSemicolons (code : String) : String :=
  String.ofList (code.toList.reverse.dropWhile (· == ';')).reverse

/-- User code as one statement. -/
def statement (code : String) : List (Segment β) :=
  let code := Text.trim code
  if Source.endsInLineComment code then Code.verbatim code ++ Code.lines ";"
  else Code.verbatim (dropSemicolons code ++ ";")

/-- Opens a watch on an expression; the callback's body follows, and `watchEnd`. -/
def watch (stopper expression : String) : List (Segment β) :=
  let opener :=
    stopper ++ " = " ++ Names.library ++ ".watchAndInvoke(() => " ++ Text.trim expression
  if Source.endsInLineComment opener then Code.verbatim opener ++ Code.lines ", (e) \x7b"
  else Code.verbatim (opener ++ ", (e) \x7b")

/-- Closes the callback of a watch. -/
def watchEnd : String := "\x7d);"

end TemplateWeaver
