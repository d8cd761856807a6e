import TemplateWeaver.Proofs.Source.Blanking
import TemplateWeaver.Proofs.Source.FirstHead

/-!
Cutting a text at the body of a class. Masking keeps every byte offset (`run_blanked`), and a brace
that masking leaves is one that the reader met in code (`run_split`). So the text before a class body
is read from code to code, and cutting the masked text at the body masks the two parts
(`classBody_split`).
-/
namespace TemplateWeaver.Source

open Text (byteSize)

namespace State

/-! ### Braces that masking leaves -/

/-- A brace is written as soon as it is read, last of all, and only in code. -/
theorem write_brace {s : State} {c : Char} {shown more : List Char} (written : s.write ' ' c = shown ++ '{' :: more) :
    s.step c = .code ∧ more = [] := by
  have counted := count_write (b := '{') (.inl rfl) s c
  have brace : '{' ∈ s.write ' ' c := by simp [written]
  have last : ∀ before, '{' ∉ before → before ++ ['{'] = shown ++ '{' :: more → more = [] := by
    intro before free same
    rcases List.eq_nil_or_concat more with empty | ⟨inner, z, rfl⟩
    · exact empty
    · rw [List.concat_eq_append, ← List.cons_append, ← List.append_assoc] at same
      rw [(List.append_inj' same rfl).1] at free
      simp at free
  by_cases read : s.inCode = true ∧ c = '{'
  · obtain ⟨ready, rfl⟩ := read
    cases s with
    | code => exact ⟨rfl, last [] (by simp) written⟩
    | slash => exact ⟨rfl, last ['/'] (by simp) written⟩
    | paired quote => cases quote <;> exact ⟨rfl, last [] (by simp) written⟩
    | _ => simp [inCode] at ready
  · rw [if_neg read] at counted
    exact absurd brace (List.count_eq_zero.mp counted)

/-- A text is cut where the masked text is cut behind a brace. -/
theorem run_split {s : State} {cs shown body : List Char} (masked : s.run ' ' cs = shown ++ '{' :: body) :
    ∃ front back, cs = front ++ back ∧ s.after front = .code ∧ s.output ' ' front = shown ++ ['{']
      ∧ State.code.run ' ' back = body := by
  induction cs generalizing s shown with
  | nil =>
    have none : '{' ∉ s.flush := by
      cases s with
      | closing quote two => cases two <;> simp [flush]
      | _ => simp [flush]
    simp only [run, output, after_nil, List.nil_append] at masked
    simp [masked] at none
  | cons c cs ih =>
    rw [run_cons] at masked
    -- The brace is written with the first character or with one behind it.
    rcases List.append_eq_append_iff.mp masked with ⟨later, rfl, rest⟩ | ⟨_ | ⟨e, early⟩, written, rest⟩
    · obtain ⟨front, back, rfl, ends, output, body⟩ := ih rest
      exact ⟨c :: front, back, rfl, ends, by rw [State.output, output, List.append_assoc], body⟩
    · rw [List.append_nil] at written
      obtain ⟨front, back, rfl, ends, output, body⟩ := @ih (s.step c) [] rest.symm
      exact ⟨c :: front, back, rfl, ends, by rw [State.output, output, written]; rfl, body⟩
    · obtain ⟨rfl, rfl⟩ := List.cons.inj rest
      obtain ⟨code, rfl⟩ := write_brace written
      exact ⟨[c], cs, rfl, code, by simp [output, written], by rw [code]; rfl⟩

end State

/-! ### Class bodies -/

/-- The text before a class body is read from code to code, and the offset of the body cuts the text
    and the masked text at the same place. -/
theorem classBody_split {name code : String} {offset : Nat}
    (found : classBodyOffset? name (mask code) = some offset) :
    ∃ front back, code = front ++ back ∧ State.code.after front.toList = .code
      ∧ Text.takeBytes code offset = front ∧ Text.dropBytes code offset = back
      ∧ Text.takeBytes (mask code) offset = mask front ∧ Text.dropBytes (mask code) offset = mask back := by
  obtain ⟨shown, body, masked, size⟩ := exists_brace_of_classBodyOffset? found
  rw [mask_eq, String.toList_ofList] at masked
  obtain ⟨front, back, split, ends, written, rfl⟩ := State.run_split masked
  have whole : State.code.run ' ' (front ++ back) = State.code.run ' ' front ++ State.code.run ' ' back :=
    State.run_append ends back
  have bytes : byteSize (State.code.run ' ' front) = byteSize front := (run_blanked front).byteSize_eq
  have shows : State.code.run ' ' front = shown ++ ['{'] := by
    rw [State.run, ends, written]
    exact List.append_nil _
  obtain rfl : byteSize front = offset := by rw [← size, ← bytes, shows]
  obtain rfl : code = String.ofList (front ++ back) := by rw [← split, String.ofList_toList]
  have masks : mask (String.ofList (front ++ back))
      = String.ofList (State.code.run ' ' front ++ State.code.run ' ' back) := by
    rw [mask_eq, String.toList_ofList, whole]
  refine ⟨String.ofList front, String.ofList back, String.ofList_append, by simpa using ends, ?_, ?_, ?_, ?_⟩
  · exact Text.takeBytes_append front back
  · exact Text.dropBytes_append front back
  · rw [masks, ← bytes, Text.takeBytes_append, mask_eq, String.toList_ofList]
  · rw [masks, ← bytes, Text.dropBytes_append, mask_eq, String.toList_ofList]

end TemplateWeaver.Source
