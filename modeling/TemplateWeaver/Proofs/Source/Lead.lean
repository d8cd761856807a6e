import TemplateWeaver.Proofs.Source.Closed

/-!
How texts begin. A line that begins with a closing brace has to stand where a brace is open. A `Lead` is
a draft that may begin a line anywhere: its first character is neither blank, so that trimming leaves it
where it is, nor a closing brace. Names begin so, and most fixed texts.
-/
namespace TemplateWeaver.Source

variable {a b text : String} {d : Int} {x : Option Int} {k l : List Char}

/-- The text begins with a character that is neither blank nor a closing brace. -/
def Begins (text : String) : Prop :=
  ∃ c cs, text.toList = c :: cs ∧ Text.isBlank c = false ∧ c ≠ '}'

/-- A fixed text that may begin a line. -/
def isLead (l : List Char) : Bool :=
  match l with
  | [] => false
  | c :: _ => !Text.isBlank c && c != '}'

namespace Begins

theorem fixed (check : isLead l = true) : Begins (String.ofList l) := by
  cases l with
  | nil => simp [isLead] at check
  | cons c cs =>
    simp only [isLead, Bool.and_eq_true, Bool.not_eq_true', bne_iff_ne, ne_eq] at check
    exact ⟨c, cs, String.toList_ofList, check.1, check.2⟩

theorem append (begins : Begins a) : Begins (a ++ b) := by
  obtain ⟨c, cs, split, solid, notBrace⟩ := begins
  exact ⟨c, cs ++ b.toList, by rw [String.toList_append, split, List.cons_append], solid, notBrace⟩

theorem name {name : String} (legal : isMemberName name = true) : Begins name := by
  rcases split : name.toList with _ | ⟨c, cs⟩
  · simp [isMemberName, split] at legal
  · have start := isNameStart_of_mem_name legal (c := c) (by simp [split])
    refine ⟨c, cs, split, not_isBlank_of_isNameStart start, ?_⟩
    rintro rfl
    revert start
    decide

theorem head?_ne (begins : Begins text) : text.toList.head? ≠ some '}' := by
  obtain ⟨c, cs, split, -, notBrace⟩ := begins
  simpa [split] using notBrace

/-- Trimming leaves the beginning as it is. -/
theorem trim (begins : Begins text) : Begins (Text.trim text) := by
  obtain ⟨c, cs, split, solid, notBrace⟩ := begins
  obtain ⟨front, back, parts, blankFront, blankBack⟩ := Text.trim_split text
  rw [split, List.append_assoc] at parts
  rcases front with _ | ⟨z, front⟩
  · rcases inner : (Text.trim text).toList with _ | ⟨z, rest⟩
    · have same : c :: cs = back := by simpa [inner] using parts
      have blank := blankBack c (by simp [← same])
      rw [solid] at blank
      cases blank
    · rw [inner] at parts
      obtain ⟨rfl, -⟩ := List.cons.inj parts
      exact ⟨c, rest, inner, solid, notBrace⟩
  · obtain ⟨rfl, -⟩ := List.cons.inj parts
    have blank := blankFront c (by simp)
    rw [solid] at blank
    cases blank

end Begins

theorem Comment.begins (comment : Comment text) : Begins text := by
  obtain ⟨cs, split, -⟩ := comment
  exact ⟨'/', '/' :: cs, split, rfl, by decide⟩

/-! ### Leads -/

/-- A draft that may begin a line where no brace is open. -/
structure Lead (text : String) (braces : Option Int) : Prop where
  begins : Begins text
  draft : Draft text braces

/-- A plain text without braces that may begin such a line. -/
structure Word (text : String) : Prop extends Plain text 0 where
  begins : Begins text

theorem Word.name {name : String} (legal : isMemberName name = true) : Word name where
  toPlain := .name legal
  begins := .name legal

namespace Lead

theorem fixed (check : isLead l = true) : Lead (String.ofList l) (tally l) :=
  ⟨.fixed check, .fixed⟩

theorem slot (left : Lead a x) (middle : Plain b d) :
    Lead (a ++ b ++ String.ofList l) (total (total x (some d)) (tally l)) :=
  ⟨left.begins.append.append, left.draft.slot middle⟩

theorem quote (left : Lead a x) {s : String} : Lead (a ++ literal s ++ String.ofList l) (total x (tally l)) :=
  ⟨left.begins.append.append, left.draft.quote⟩

/-- A word and a fixed text behind it. -/
theorem word (left : Word a) : Lead (a ++ String.ofList l) (total (some 0) (tally l)) :=
  ⟨left.begins.append, left.ahead⟩

/-- A plain text between two fixed ones. -/
theorem within (middle : Plain a d) (check : isLead k = true) :
    Lead (String.ofList k ++ a ++ String.ofList l) (total (total (tally k) (some d)) (tally l)) :=
  ⟨(Begins.fixed check).append.append, middle.within⟩

end Lead

end TemplateWeaver.Source
