import TemplateWeaver.Text.Blank

/-!
Segments of code: lines, and other code embedded at its place. What is embedded may be a buffer that
still grows or content that stands; code that embeds something is written the same way for both.
-/
namespace TemplateWeaver.Code

inductive Segment (β : Type) where
  /-- A piece of text that is indented as one. It may hold line feeds of its own. -/
  | line (text : String)
  | embed (content : β)
  deriving DecidableEq, Repr

variable {β γ : Type}

/-- Embeds something else in place of what is embedded. -/
def Segment.map (f : β → γ) : Segment β → Segment γ
  | .line text => .line text
  | .embed content => .embed (f content)

/-- The lines of a text, trimmed, without the blank ones. -/
def lines (text : String) : List (Segment β) :=
  (((Text.lines text).map Text.trim).filter (· ≠ "")).map .line

/-- Several texts, one after the other, each cut into lines. -/
def allLines (texts : List String) : List (Segment β) :=
  texts.flatMap lines

/-- A text as one segment, neither trimmed nor cut; nothing for the empty text. -/
def verbatim (text : String) : List (Segment β) :=
  if text = "" then [] else [.line text]

/-! ### Embedding something else -/

@[simp] theorem map_lines (g : β → γ) (text : String) :
    (lines text : List (Segment β)).map (Segment.map g) = lines text := by
  simp [lines, Segment.map, Function.comp_def]

@[simp] theorem map_allLines (g : β → γ) (texts : List String) :
    (allLines texts : List (Segment β)).map (Segment.map g) = allLines texts := by
  simp [allLines, List.map_flatMap]

@[simp] theorem map_verbatim (g : β → γ) (text : String) :
    (verbatim text : List (Segment β)).map (Segment.map g) = verbatim text := by
  unfold verbatim
  split <;> rfl

end TemplateWeaver.Code
