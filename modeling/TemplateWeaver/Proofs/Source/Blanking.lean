import Mathlib.Data.List.Forall2
import TemplateWeaver.Proofs.Source.Lexer

/-!
How a masked text differs from the text. Masking turns characters to spaces, each as a whole and never a
line feed (`run_blanked`), so the two texts have their bytes side by side (`Blanked.bytes`), and a character
other than a space in the masked text is one of the text, at the same offset (`Blanked.split`). Offsets
around such a character are therefore good in both texts, while most others between the characters of the
masked text are not.
-/
namespace TemplateWeaver.Source

open Text (encode byteSize)

/-- The second text is the first with some characters turned to spaces, one a byte. -/
inductive Blanked : List Char → List Char → Prop
  | nil : Blanked [] []
  | keep (c : Char) {cs ds : List Char} : Blanked cs ds → Blanked (c :: cs) (c :: ds)
  | blank {c : Char} {cs ds : List Char} :
    c ≠ '\n' → Blanked cs ds → Blanked (c :: cs) (List.replicate c.utf8Size ' ' ++ ds)

namespace Blanked

variable {cs ds shown more : List Char}

theorem refl (cs : List Char) : Blanked cs cs := by
  induction cs with
  | nil => exact .nil
  | cons c cs ih => exact .keep c ih

theorem append {as bs : List Char} (first : Blanked as bs) (second : Blanked cs ds) :
    Blanked (as ++ cs) (bs ++ ds) := by
  induction first with
  | nil => exact second
  | keep c _ ih => exact .keep c ih
  | blank notFeed _ ih =>
    rw [List.append_assoc]
    exact .blank notFeed ih

theorem cover (cs : List Char) : Blanked cs (cs.flatMap State.cover) := by
  induction cs with
  | nil => exact .nil
  | cons c cs ih =>
    rw [List.flatMap_cons, State.cover]
    split
    · exact .keep c ih
    · rename_i notFeed
      exact .blank notFeed ih

theorem token (token : Token) : Blanked token.text token.masked := by
  cases token with
  | code c => exact refl [c]
  | lineComment inside => exact cover _
  | blockComment inside => exact cover _
  | literal quote triple inside closed => exact ((refl _).append (cover inside)).append (refl _)

theorem tokens (ts : List Token) : Blanked (ts.flatMap Token.text) (ts.flatMap Token.masked) := by
  induction ts with
  | nil => exact .nil
  | cons t ts ih => exact (token t).append ih

/-! ### Bytes side by side -/

theorem bytes (blanked : Blanked cs ds) :
    List.Forall₂ (fun b d => d = b ∨ b ≠ lineFeed ∧ d = space) (encode cs) (encode ds) := by
  induction blanked with
  | nil => exact .nil
  | keep c _ ih =>
    refine List.rel_append ?_ ih
    exact List.forall₂_same.mpr fun b _ => .inl rfl
  | @blank c _ _ notFeed _ ih =>
    rw [Text.encode_append, State.encode_replicate (by decide), ← String.length_utf8EncodeChar]
    refine List.rel_append ?_ ih
    rw [← List.map_const, List.forall₂_map_right_iff]
    exact List.forall₂_same.mpr fun b member => .inr ⟨Text.ne_byte (a := '\n') (by decide) notFeed member, rfl⟩

theorem byteSize_eq (blanked : Blanked cs ds) : byteSize ds = byteSize cs := by
  rw [← Text.length_encode, ← Text.length_encode, blanked.bytes.length_eq]

/-! ### Offsets -/

theorem lineFeed_mem (blanked : Blanked cs ds) (feed : '\n' ∈ cs) : '\n' ∈ ds := by
  induction blanked with
  | nil => exact feed
  | keep c _ ih =>
    rcases List.mem_cons.mp feed with rfl | later
    · exact List.mem_cons_self
    · exact List.mem_cons_of_mem _ (ih later)
  | blank notFeed _ ih =>
    rcases List.mem_cons.mp feed with rfl | later
    · exact absurd rfl notFeed
    · exact List.mem_append_right _ (ih later)

/-- A character of the blanked text that is no space stands in the text itself, with the same texts before
    and behind it. -/
theorem split {x : Char} (blanked : Blanked cs (shown ++ x :: more)) (solid : x ≠ ' ') :
    ∃ front back, cs = front ++ x :: back ∧ Blanked front shown ∧ Blanked back more := by
  generalize whole : shown ++ x :: more = ds at blanked
  induction blanked generalizing shown with
  | nil => simp at whole
  | @keep c cs ds rest ih =>
    rcases shown with _ | ⟨d, shown⟩
    · obtain ⟨rfl, rfl⟩ := List.cons.inj whole
      exact ⟨[], cs, rfl, .nil, rest⟩
    · obtain ⟨rfl, tail⟩ := List.cons.inj whole
      obtain ⟨front, back, rfl, before, behind⟩ := ih tail
      exact ⟨d :: front, back, rfl, .keep d before, behind⟩
  | @blank c cs ds notFeed rest ih =>
    -- The spaces of a blanked character lie before the solid one.
    have beyond : ∃ inner, shown = List.replicate c.utf8Size ' ' ++ inner ∧ inner ++ x :: more = ds := by
      rcases List.append_eq_append_iff.mp whole with ⟨_ | ⟨e, early⟩, spaces, tail⟩ | ⟨inner, same, tail⟩
      · exact ⟨[], by simpa using spaces.symm, by simpa using tail⟩
      · obtain ⟨rfl, -⟩ := List.cons.inj tail
        have among : x ∈ List.replicate c.utf8Size ' ' := by simp [spaces]
        exact absurd (List.eq_of_mem_replicate among) solid
      · exact ⟨inner, same, tail.symm⟩
    obtain ⟨inner, rfl, tail⟩ := beyond
    obtain ⟨front, back, rfl, before, behind⟩ := ih tail
    exact ⟨c :: front, back, rfl, .blank notFeed before, behind⟩

end Blanked

/-- What the reader writes of a text is the text with whole characters turned to spaces. -/
theorem run_blanked (cs : List Char) : Blanked cs (State.code.run ' ' cs) := by
  have tokens := Blanked.tokens (lex cs)
  rwa [flatMap_text_lex, flatMap_masked_lex] at tokens

theorem mask_blanked (code : String) : Blanked code.toList (mask code).toList := by
  rw [mask_eq, String.toList_ofList]
  exact run_blanked code.toList

end TemplateWeaver.Source
