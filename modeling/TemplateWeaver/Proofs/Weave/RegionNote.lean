import TemplateWeaver.Proofs.Source.Lead
import TemplateWeaver.Proofs.Text.LineFeed
import TemplateWeaver.Weave.Feature

/-!
Notes of regions. The declarations of a region begin with a comment that quotes the user's texts. With their words put
on one line the texts cannot end the comment: it stays a line of its own, masked from end to end, and what follows it
is the same whatever it quotes (`region_notes_sealed`).
-/
namespace TemplateWeaver

/-! ### Comments that are masked as a whole -/

namespace Source

/-- The text is a line comment and nothing else. None of it is left when it is masked, and none of its braces counts. -/
structure Sealed (note : String) : Prop where
  comment : Comment note
  masked : mask note = String.ofList (List.replicate note.utf8ByteSize ' ')
  braces : braceDelta note = 0

theorem Comment.sealed {note : String} (comment : Comment note) : Sealed note where
  comment := comment
  masked := by
    obtain ⟨cs, split, flat⟩ := comment
    have opened : note = "//" ++ String.ofList cs := by
      rw [← String.toList_inj, split]
      simp
    have taken := (mask_takes_up_iff "//").mpr rfl (String.ofList cs) (by rwa [String.toList_ofList])
    have slashes : mask "//" = String.ofList (List.replicate 2 ' ') := by decide +kernel
    have size : note.utf8ByteSize = 2 + (String.ofList cs).utf8ByteSize := by
      rw [opened, String.utf8ByteSize_append]
      rfl
    rw [size, ← List.replicate_append_replicate, String.ofList_append, ← slashes, ← taken, ← opened]
  braces := by rw [braceDelta_eq, comment.line.balance]

end Source

open Code (Segment)
open Source (Begins Comment Sealed)

variable {β : Type}

/-! ### Lines as they stand -/

namespace Code

/-- A text without line feeds that is blank at neither end is one line, as it stands. -/
theorem lines_framed {text : String} {c : Char} (flat : '\n' ∉ text.toList) (begins : Begins text)
    (last : text.toList.getLast? = some c) (solid : Text.isBlank c = false) :
    (lines text : List (Segment β)) = [.line text] := by
  obtain ⟨d, cs, split, solidFirst, -⟩ := begins
  have trimmed : Text.trim text = text := Text.trim_eq (c := d) (by rw [split]; rfl) last solidFirst solid
  have some : text ≠ "" := by
    rintro rfl
    cases last
  rw [lines_flat flat, trimmed, if_neg some]

/-- Fixed texts that whatever has no line feed may stand between, on a line of its own. -/
def isFrame (front back : String) : Bool :=
  Source.isLead front.toList && !front.toList.contains '\n' && !back.toList.contains '\n' &&
    back.toList.getLast?.any fun c => !Text.isBlank c

theorem lines_within {front name back : String} (check : isFrame front back = true) (flat : '\n' ∉ name.toList) :
    (lines (front ++ name ++ back) : List (Segment β)) = [.line (front ++ name ++ back)] := by
  simp only [isFrame, Bool.and_eq_true, Bool.not_eq_true', List.contains_eq_mem, decide_eq_false_iff_not,
    Option.any_eq_true] at check
  obtain ⟨⟨⟨lead, flatFront⟩, flatBack⟩, c, last, solid⟩ := check
  have begins : Begins front := by simpa using Begins.fixed lead
  refine lines_framed (c := c) ?_ begins.append.append ?_ solid
  · simp [flatFront, flat, flatBack]
  · rw [String.toList_append, List.getLast?_append, last, Option.some_or]

theorem allLines_cons {text : String} {texts : List String} (first : (lines text : List (Segment β)) = [.line text])
    (later : (allLines texts : List (Segment β)) = texts.map .line) :
    (allLines (text :: texts) : List (Segment β)) = (text :: texts).map .line := by
  rw [allLines, List.flatMap_cons, first, ← allLines, later]
  rfl

end Code

/-! ### The declarations of a region -/

/-- The comment on a conditional region. -/
def conditionalNote (condition : String) : String :=
  s!"// Fields for conditional region `{Text.oneLine condition}`."

/-- The comment on a repeated region. -/
def repeatedNote (item collection : String) : String :=
  s!"// Fields for repeated region `{Text.oneLine item} in {Text.oneLine collection}`."

theorem comment_conditionalNote (condition : String) : Comment (conditionalNote condition) :=
  .append (.append (.fixed rfl) (Text.oneLine_flat condition)) (by decide)

theorem comment_repeatedNote (item collection : String) : Comment (repeatedNote item collection) :=
  .append (.append (.append (.append (.fixed rfl) (Text.oneLine_flat item)) (by decide)) (Text.oneLine_flat collection))
    (by decide)

/-- A comment that ends in a full stop is a line as it stands. -/
theorem Source.Comment.lines {a b : String} (comment : Comment (a ++ b)) (stop : b.toList.getLast? = some '.') :
    (Code.lines (a ++ b) : List (Segment β)) = [.line (a ++ b)] := by
  refine Code.lines_framed (c := '.') comment.flat comment.begins ?_ (by decide)
  rw [String.toList_append, List.getLast?_append, stop, Option.some_or]

section
variable {field stopper : String}

/-- A conditional region declares five lines under its comment. They hang on its field and its stopper alone. -/
theorem declarations_conditional (flatField : '\n' ∉ field.toList) (flatStopper : '\n' ∉ stopper.toList) :
    ∃ fields : List String, fields.length = 5 ∧ ∀ (condition : String) (inner : ConditionalCode β),
      conditionalCode field condition stopper inner .declarations
          = Code.allLines (conditionalNote condition :: fields) ∧
        (Code.allLines (conditionalNote condition :: fields) : List (Segment β))
          = (conditionalNote condition :: fields).map .line := by
  refine ⟨_, ?length, fun condition inner => ⟨rfl, ?lines⟩⟩
  case length => rfl
  case lines =>
    exact Code.allLines_cons ((comment_conditionalNote condition).lines rfl) <|
      Code.allLines_cons (Code.lines_within (by decide) flatStopper) <|
      Code.allLines_cons (Code.lines_within (by decide) flatField) <|
      Code.allLines_cons (Code.lines_within (by decide) flatField) <|
      Code.allLines_cons (Code.lines_within (by decide) flatField) <|
      Code.allLines_cons (Code.lines_within (by decide) flatField) rfl

/-- A repeated region declares three. -/
theorem declarations_repeated (flatField : '\n' ∉ field.toList) (flatStopper : '\n' ∉ stopper.toList) :
    ∃ fields : List String, fields.length = 3 ∧ ∀ (item collection itemRoot : String) (inner : Section → β),
      repeatedCode field item collection stopper itemRoot inner .declarations
          = Code.allLines (repeatedNote item collection :: fields) ∧
        (Code.allLines (repeatedNote item collection :: fields) : List (Segment β))
          = (repeatedNote item collection :: fields).map .line := by
  refine ⟨_, ?length, fun item collection itemRoot inner => ⟨rfl, ?lines⟩⟩
  case length => rfl
  case lines =>
    exact Code.allLines_cons ((comment_repeatedNote item collection).lines rfl) <|
      Code.allLines_cons (Code.lines_within (by decide) flatStopper) <|
      Code.allLines_cons (Code.lines_within (by decide) flatField) <|
      Code.allLines_cons (Code.lines_within (by decide) flatField) rfl

/-- What the comment of a region quotes stays in the comment. Field and stopper without line feeds given, there are five
    lines for a conditional region and three for a repeated one such that, whatever texts the region has, its
    declarations are its comment and these lines, no less if all is written as one text and cut into lines again. The
    comment is sealed: it begins with two slashes and has no line feed, is masked to spaces from end to end and counts
    for no brace. Still it quotes the texts word for word. -/
theorem region_notes_sealed (flatField : '\n' ∉ field.toList) (flatStopper : '\n' ∉ stopper.toList)
    (root : Option String) :
    (∃ fields : List String, fields.length = 5 ∧ ∀ (condition : String) (inner : ConditionalCode β),
      Sealed (conditionalNote condition) ∧
        (Feature.conditional field condition stopper inner).code root .declarations
          = (conditionalNote condition :: fields).map .line ∧
        Code.lines ("\n".intercalate (conditionalNote condition :: fields))
          = (conditionalNote condition :: fields).map (.line : String → Segment β)) ∧
    (∃ fields : List String, fields.length = 3 ∧ ∀ (item collection itemRoot : String) (inner : Section → β),
      Sealed (repeatedNote item collection) ∧
        (Feature.repeated field item collection stopper itemRoot inner).code root .declarations
          = (repeatedNote item collection :: fields).map .line ∧
        Code.lines ("\n".intercalate (repeatedNote item collection :: fields))
          = (repeatedNote item collection :: fields).map (.line : String → Segment β)) ∧
    ∀ text, Text.words (Text.oneLine text) = Text.words text := by
  refine ⟨?conditional, ?repeated, Text.words_oneLine⟩
  case conditional =>
    obtain ⟨fields, length, declared⟩ := declarations_conditional (β := β) flatField flatStopper
    refine ⟨fields, length, fun condition inner => ?_⟩
    obtain ⟨written, stand⟩ := declared condition inner
    exact ⟨(comment_conditionalNote condition).sealed, written.trans stand, (Code.lines_intercalate _).trans stand⟩
  case repeated =>
    obtain ⟨fields, length, declared⟩ := declarations_repeated (β := β) flatField flatStopper
    refine ⟨fields, length, fun item collection itemRoot inner => ?_⟩
    obtain ⟨written, stand⟩ := declared item collection itemRoot inner
    exact ⟨(comment_repeatedNote item collection).sealed, written.trans stand, (Code.lines_intercalate _).trans stand⟩

end

/-- A text with line ends of three kinds, quotes, braces and what begins and ends comments. -/
def tangled : String :=
  "a \x7b\r\n\t*/ '''\u2028//\u00a0 \x7d\n"

theorem region_notes_sealed_tangled :
    '\n' ∉ "box".toList ∧ '\n' ∉ "stop".toList ∧ Text.oneLine tangled = "a \x7b */ ''' // \x7d" ∧
      Sealed "// Fields for conditional region `a \x7b */ ''' // \x7d`." ∧
      (∃ fields : List String, fields.length = 5 ∧
        (Feature.conditional "box" tangled "stop" ⟨(), (), ()⟩).code none .declarations
          = ("// Fields for conditional region `a \x7b */ ''' // \x7d`." :: fields).map .line) ∧
      ∃ fields : List String, fields.length = 3 ∧
        (Feature.repeated "box" "\n row" tangled "stop" "__x0" fun _ => ()).code none .declarations
          = ("// Fields for repeated region `row in a \x7b */ ''' // \x7d`." :: fields).map .line := by
  have flatField : '\n' ∉ "box".toList := by decide
  have flatStopper : '\n' ∉ "stop".toList := by decide
  have quoted : conditionalNote tangled = "// Fields for conditional region `a \x7b */ ''' // \x7d`." := by
    decide +kernel
  have looped : repeatedNote "\n row" tangled = "// Fields for repeated region `row in a \x7b */ ''' // \x7d`." := by
    decide +kernel
  obtain ⟨⟨five, length, conditional⟩, ⟨three, few, each⟩, -⟩ :=
    region_notes_sealed (β := Unit) flatField flatStopper none
  obtain ⟨safe, declared, -⟩ := conditional tangled ⟨(), (), ()⟩
  obtain ⟨-, listed, -⟩ := each "\n row" tangled "__x0" fun _ => ()
  rw [quoted] at safe declared
  rw [looped] at listed
  exact ⟨flatField, flatStopper, by decide +kernel, safe, ⟨five, length, declared⟩, three, few, listed⟩

end TemplateWeaver
