import TemplateWeaver.Proofs.Source.Directive

/-!
Taking a line out of a text. What follows the line is read from where the reader stood at its beginning and
no longer from where it stood at its end, so the rest is masked as before exactly if the text that follows
reads alike from both (`mask_without_line_iff`). At a line with a leading directive the reader may stand in a
block comment: the line is looked for in the masked text, where the end of a comment is blank. Taking the
line out then leaves the comment open.
-/
namespace TemplateWeaver.Source

open Text (byteSize)

namespace State

variable {s : State} {cs : List Char}

/-- Behind a line feed nothing waits to be written. -/
theorem flush_step_lineFeed (s : State) : (s.step '\n').flush = [] := by
  cases s with
  | opened quote => cases quote <;> rfl
  | paired quote => cases quote <;> rfl
  | literal quote triple => cases quote <;> cases triple <;> rfl
  | closing quote two => cases quote <;> rfl
  | _ => rfl

theorem flush_of_startsLine (line : StartsLine cs) : (State.code.after cs).flush = [] := by
  rcases line with rfl | ended
  · rfl
  · obtain ⟨front, rfl⟩ := List.getLast?_eq_some_iff.mp ended
    rw [after_append]
    exact flush_step_lineFeed _

/-- Where nothing waits to be written, a text is cut and so is what is written of it. -/
theorem run_append_of_flush (none : (s.after cs).flush = []) (ds : List Char) :
    s.run ' ' (cs ++ ds) = s.run ' ' cs ++ (s.after cs).run ' ' ds := by
  simp [run, output_append, none]

end State

/-! ### Blank text

Quotes are always written, so what is masked to blank characters holds no literals. -/

namespace State

variable {s : State} {cs : List Char}

/-- In code or in a comment. -/
def isUnquoted : State → Bool
  | .code | .slash | .lineComment | .blockComment | .star => true
  | _ => false

theorem isUnquoted_start {c : Char} (blank : ∀ d ∈ reveal c, Text.isBlank d = true) : (start c).isUnquoted = true := by
  rw [start]
  split
  · rfl
  · rename_i notSlash
    have solid : Text.isBlank c = true := blank c (by simp [reveal, notSlash])
    split
    · rename_i single
      rw [single] at solid
      exact absurd solid (by decide)
    · split
      · rename_i double
        rw [double] at solid
        exact absurd solid (by decide)
      · rfl

theorem isUnquoted_step {c : Char} (unquoted : s.isUnquoted = true)
    (blank : ∀ d ∈ s.write ' ' c, Text.isBlank d = true) : (s.step c).isUnquoted = true := by
  cases s with
  | code => exact isUnquoted_start blank
  | slash =>
    rw [step]
    split
    · rfl
    · split
      · rfl
      · rename_i notSlash notStar
        have solid : Text.isBlank '/' = true := blank '/' (by simp [write, notSlash, notStar])
        exact absurd solid (by decide)
  | lineComment =>
    rw [step]
    split <;> rfl
  | blockComment =>
    rw [step]
    split <;> rfl
  | star =>
    rw [step]
    split
    · rfl
    · split <;> rfl
  | _ => simp [isUnquoted] at unquoted

theorem isUnquoted_after (unquoted : s.isUnquoted = true) (blank : ∀ d ∈ s.output ' ' cs, Text.isBlank d = true) :
    (s.after cs).isUnquoted = true := by
  induction cs generalizing s with
  | nil => exact unquoted
  | cons c cs ih =>
    refine ih (isUnquoted_step unquoted fun d member => ?_) fun d member => ?_
    · exact blank d (by simp [output, member])
    · exact blank d (by simp [output, member])

/-- At the end of a line that is masked to blank characters the reader stands in code or in a block comment. -/
theorem after_blank_lines (line : StartsLine cs) (blank : ∀ d ∈ State.code.run ' ' cs, Text.isBlank d = true) :
    State.code.after cs = .code ∨ State.code.after cs = .blockComment := by
  rcases line with rfl | ended
  · exact .inl rfl
  · obtain ⟨front, rfl⟩ := List.getLast?_eq_some_iff.mp ended
    have unquoted : (State.code.after front).isUnquoted = true := by
      refine isUnquoted_after rfl fun d member => ?_
      exact blank d (by simp [run, output_append, member])
    rw [after_append]
    generalize State.code.after front = s at unquoted
    cases s with
    | code => exact .inl rfl
    | slash => exact .inl rfl
    | lineComment => exact .inl rfl
    | blockComment => exact .inr rfl
    | star => exact .inr rfl
    | _ => simp [isUnquoted] at unquoted

end State

/-! ### Lines -/

/-- Where the reader stands at a byte of a text. -/
def stateAt (code : String) (k : Nat) : State :=
  State.code.after (Text.takeBytes code k).toList

namespace LineAt

variable {code : String} {p q : Nat} {front line back : List Char}

theorem stateAt_start (at_ : LineAt code p q front line back) : stateAt code p = State.code.after front := by
  rw [stateAt, at_.takeBytes_start, String.toList_ofList]

theorem stateAt_stop (at_ : LineAt code p q front line back) : stateAt code q = (stateAt code p).after line := by
  rw [stateAt, at_.takeBytes_stop, String.toList_ofList, State.after_append, at_.stateAt_start]

/-- A text and the same text without its line, masked. -/
theorem masks (at_ : LineAt code p q front line back) (behind : List Char) :
    mask (String.ofList (front ++ behind))
      = String.ofList (State.code.run ' ' front ++ (stateAt code p).run ' ' behind) := by
  rw [mask_eq, String.toList_ofList, at_.stateAt_start]
  exact congrArg _ (State.run_append_of_flush (State.flush_of_startsLine at_.starts) behind)

theorem takeBytes_mask (at_ : LineAt code p q front line back) :
    Text.takeBytes (mask code) p = String.ofList (State.code.run ' ' front) := by
  have size : byteSize (State.code.run ' ' front) = p := by rw [(run_blanked front).byteSize_eq, at_.start]
  rw [← String.ofList_toList (s := code), at_.split, at_.masks, ← size, Text.takeBytes_append]

/-- What follows the line is masked from where the reader stands at its end, if anything follows it. -/
theorem dropBytes_mask (at_ : LineAt code p q front line back) :
    Text.dropBytes (mask code) q = String.ofList (if back = [] then [] else (stateAt code q).run ' ' back) := by
  have size : byteSize (State.code.run ' ' (front ++ line)) = q := by
    rw [(run_blanked (front ++ line)).byteSize_eq, at_.stop]
  have whole : mask code = String.ofList (State.code.run ' ' (front ++ line)
      ++ if back = [] then [] else (stateAt code q).run ' ' back) := by
    rw [mask_eq, at_.split, ← List.append_assoc]
    split
    · rename_i last
      rw [last, List.append_nil, List.append_nil]
    · rename_i more
      obtain ⟨body, -, ended⟩ := at_.isLine.resolve_right fun last => more last.2
      have starts : StartsLine (front ++ line) := .inr (by simp [ended])
      rw [State.run_append_of_flush (State.flush_of_startsLine starts), at_.stateAt_stop, at_.stateAt_start,
        State.after_append]
  rw [whole, ← size, Text.dropBytes_append]

end LineAt

/-- Without one of its lines a text is masked as before exactly if what follows the line reads alike from where
    the reader stands at its beginning and from where it stands at its end. -/
theorem mask_without_line_iff {code : String} {p q : Nat} {front line back : List Char}
    (at_ : LineAt code p q front line back) :
    mask (String.ofList (front ++ back)) = Text.takeBytes (mask code) p ++ Text.dropBytes (mask code) q
      ↔ back = [] ∨ (stateAt code p).run ' ' back = (stateAt code q).run ' ' back := by
  rw [at_.masks, at_.takeBytes_mask, at_.dropBytes_mask, ← String.ofList_append, String.ofList_inj,
    List.append_cancel_left_eq]
  by_cases last : back = []
  · have nothing : (stateAt code p).run ' ' [] = [] := by
      rw [at_.stateAt_start]
      exact State.flush_of_startsLine at_.starts
    simp [last, nothing]
  · simp [last]

/-! ### The directive's line -/

/-- Where the line of a leading directive begins, the reader stands in code or in a block comment. -/
theorem stateAt_directive {code : String} {p q : Nat} (span : directiveSpan? (mask code) = some (p, q)) :
    stateAt code p = .code ∨ stateAt code p = .blockComment := by
  obtain ⟨found, before, behind, split, size, -, blank, -⟩ := directiveSpan?_eq_some span
  obtain ⟨front, line, back, at_⟩ := lineAt_of_findDirective found
  have shown : before = State.code.run ' ' front := by
    have cut := at_.takeBytes_mask
    rw [← size, Text.takeBytes_of_split split, String.ofList_inj] at cut
    exact cut
  rw [at_.stateAt_start]
  exact State.after_blank_lines at_.starts (shown ▸ blank)

/-- Without its leading directive a text is masked as before exactly if nothing follows the directive's line, or
    what follows reads alike from where the reader stands at the beginning of the line and from where it
    stands at its end; so it is if these are one. The line begins in code or in a block comment. -/
theorem mask_without_directive {code : String} {p q : Nat} (span : directiveSpan? (mask code) = some (p, q)) :
    (mask (splitLibrary code).2 = Text.takeBytes (mask code) p ++ Text.dropBytes (mask code) q
        ↔ Text.dropBytes code q = "" ∨ (stateAt code p).run ' ' (Text.dropBytes code q).toList
          = (stateAt code q).run ' ' (Text.dropBytes code q).toList)
      ∧ (stateAt code p = stateAt code q →
        mask (splitLibrary code).2 = Text.takeBytes (mask code) p ++ Text.dropBytes (mask code) q)
      ∧ (stateAt code p = .code ∨ stateAt code p = .blockComment) := by
  obtain ⟨front, line, back, at_⟩ := lineAt_of_findDirective (directiveSpan?_eq_some span).1
  have rest : (splitLibrary code).2 = String.ofList (front ++ back) := by rw [at_.splitLibrary_eq span]
  have exact_ := mask_without_line_iff at_
  rw [rest, at_.dropBytes_stop, String.toList_ofList, String.ofList_eq_empty_iff]
  exact ⟨exact_, fun same => exact_.mpr (.inr (by rw [same])), stateAt_directive span⟩

theorem mask_without_directive_headed :
    stateAt headed 11 = stateAt headed 38
      ∧ mask (splitLibrary headed).2 = Text.takeBytes (mask headed) 11 ++ Text.dropBytes (mask headed) 38 := by
  have same : stateAt headed 11 = stateAt headed 38 := by decide +kernel
  exact ⟨same, (mask_without_directive headed_span).2.1 same⟩

/-- A comment that ends on the line of the directive. -/
def straddled : String :=
  "/* a\n*/ library b;\nclass C \x7b\x7d\n"

/-- Taking out the line on which a comment ends leaves the comment open, and the class behind it is commented
    out. -/
theorem mask_without_directive_straddled :
    directiveSpan? (mask straddled) = some (5, 19)
      ∧ splitLibrary straddled = (some "*/ library b;", "/* a\nclass C \x7b\x7d\n")
      ∧ mask (splitLibrary straddled).2
        ≠ Text.takeBytes (mask straddled) 5 ++ Text.dropBytes (mask straddled) 19 := by
  decide +kernel

end TemplateWeaver.Source
