/-!
String literals and member names of the target language. A literal is written between single
quotes and never interpolates.
-/
namespace TemplateWeaver.Source

/-- How a character stands inside a single-quoted literal. -/
def escapeChar : Char → List Char
  | '\\' => ['\\', '\\']
  | '\'' => ['\\', '\'']
  | '\n' => ['\\', 'n']
  | '\r' => ['\\', 'r']
  | '$' => ['\\', '$']
  | c => [c]

/-- A character stands behind a backslash, itself or as a letter, or it stands as it is. -/
theorem escapeChar_cases (c : Char) :
    (∃ d, d ≠ '\n' ∧ escapeChar c = ['\\', d]) ∨ c ∉ ['\\', '\'', '\n', '\r', '$'] ∧ escapeChar c = [c] := by
  rw [escapeChar.eq_def]
  split
  case h_6 => exact .inr ⟨by simp_all, rfl⟩
  all_goals exact .inl ⟨_, by decide, rfl⟩

/-- The inside of a literal. -/
def escapeChars (cs : List Char) : List Char :=
  cs.flatMap escapeChar

/-- A text as a single-quoted literal. -/
def literal (s : String) : String :=
  String.ofList ('\'' :: escapeChars s.toList ++ ['\''])

/-- A letter, an underscore or a dollar sign. -/
def isNameStart (c : Char) : Bool :=
  c.isAlpha || c == '_' || c == '$'

/-- Whether a text can be used as a member name as it stands. -/
def isMemberName (s : String) : Bool :=
  match s.toList with
  | [] => false
  | c :: rest => isNameStart c && rest.all fun d => isNameStart d || d.isDigit

end TemplateWeaver.Source
