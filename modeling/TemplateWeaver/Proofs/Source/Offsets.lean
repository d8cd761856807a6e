import TemplateWeaver.Proofs.Source.Directive
import TemplateWeaver.Proofs.Source.FirstHead
import TemplateWeaver.Proofs.Source.Sweep

/-!
Offsets in masked text. A masked text has a place between characters wherever a character of two bytes or
more is blanked, and the text itself has none there. The searches in masked text point only at starts and
ends of lines and behind braces, and there the text can be cut as well (`mask_offsets`).
-/
namespace TemplateWeaver.Source

open Text (bytes byteSize)

/-- A text can be cut at an offset: it is long enough, and the offset lies between two characters. -/
def CutsAt (s : String) (k : Nat) : Prop :=
  k ≤ (bytes s).length ∧ (⟨k⟩ : String.Pos.Raw).IsValid s

theorem cutsAt_byteSize {s : String} {front back : List Char} (split : s.toList = front ++ back) :
    CutsAt s (byteSize front) := by
  refine ⟨?_, Text.isValid_byteSize split⟩
  rw [Text.bytes_eq, Text.length_encode, split, Text.byteSize_append]
  exact Nat.le_add_right ..

theorem LineAt.cutsAt {code : String} {p q : Nat} {front line back : List Char}
    (at_ : LineAt code p q front line back) : p ≤ q ∧ CutsAt code p ∧ CutsAt code q := by
  have behind := cutsAt_byteSize at_.split_stop
  obtain ⟨split, -, -, rfl, rfl⟩ := at_
  refine ⟨?_, cutsAt_byteSize split, behind⟩
  rw [Text.byteSize_append]
  exact Nat.le_add_right ..

theorem cutsAt_findDirective {masked : String} {p q : Nat}
    (found : findDirective 0 true masked.toList = some (p, q)) : CutsAt masked p := by
  obtain ⟨before, behind, split, -, -, rfl, -⟩ := findDirective_eq found
  rw [Nat.zero_add]
  exact cutsAt_byteSize split

theorem cutsAt_classBody {name code : String} {offset : Nat}
    (found : classBodyOffset? name (mask code) = some offset) : CutsAt code offset := by
  obtain ⟨shown, body, masked, rfl⟩ := exists_brace_of_classBodyOffset? found
  have blanked := mask_blanked code
  rw [masked] at blanked
  obtain ⟨front, back, split, before, -⟩ := blanked.split (by decide)
  have behind : byteSize (shown ++ ['{']) = byteSize (front ++ ['{']) := by
    rw [Text.byteSize_append, Text.byteSize_append, before.byteSize_eq]
  rw [behind]
  exact cutsAt_byteSize (by rw [split, List.append_assoc]; rfl)

theorem lineFeed_at_iff {bs ds : List UInt8}
    (aligned : List.Forall₂ (fun b d => d = b ∨ b ≠ lineFeed ∧ d = space) bs ds) (i : Nat) :
    ds[i]? = some lineFeed ↔ bs[i]? = some lineFeed := by
  induction aligned generalizing i with
  | nil => rfl
  | cons here _ ih =>
    cases i with
    | zero =>
      rcases here with rfl | ⟨notFeed, rfl⟩
      · rfl
      · simp [notFeed, show space ≠ lineFeed by decide]
    | succ i => exact ih i

/-- A sweep over any text ends without a failure, and masking keeps the length, the line feeds and whole
    characters. Where the search for a directive and the search for a class body point in the masked text, the
    text itself can be cut. -/
theorem mask_offsets (code : String) :
    (∀ fill, (Sweep.mk 0 (bytes code)).run? fill code (bytes code).length = some (scan fill .code (bytes code)))
      ∧ bytes (mask code) = maskBytes (bytes code)
      ∧ (bytes (mask code)).length = (bytes code).length
      ∧ (∀ i : Nat, (bytes (mask code))[i]? = some lineFeed ↔ (bytes code)[i]? = some lineFeed)
      ∧ Blanked code.toList (mask code).toList
      ∧ (∀ p q, findDirective 0 true (mask code).toList = some (p, q) →
        CutsAt (mask code) p ∧ p ≤ q ∧ CutsAt code p ∧ CutsAt code q)
      ∧ ∀ name offset, classBodyOffset? name (mask (splitLibrary code).2) = some offset →
        CutsAt (splitLibrary code).2 offset := by
  have aligned := (mask_blanked code).bytes
  rw [← Text.bytes_eq, ← Text.bytes_eq] at aligned
  refine ⟨?_, ?_, aligned.length_eq.symm, lineFeed_at_iff aligned, mask_blanked code, ?_, ?_⟩
  · intro fill
    exact (swept_start fill code).run? (by simp)
  · rw [maskBytes_bytes, mask_eq, Text.bytes_ofList]
  · intro p q found
    obtain ⟨front, line, back, at_⟩ := lineAt_of_findDirective found
    exact ⟨cutsAt_findDirective found, at_.cutsAt⟩
  · intro name offset found
    exact cutsAt_classBody found

/-- A directive and a class behind a comment with a character of two bytes. -/
def accented : String :=
  "/* caf\u00e9 */\nlibrary b;\nclass C \x7b\x7d\n"

theorem mask_offsets_accented :
    findDirective 0 true (mask accented).toList = some (12, 23)
      ∧ classBodyOffset? "C" (mask (splitLibrary accented).2) = some 21
      ∧ CutsAt accented 12 ∧ CutsAt accented 23 ∧ CutsAt (splitLibrary accented).2 21 := by
  have directive : findDirective 0 true (mask accented).toList = some (12, 23) := by decide +kernel
  have body : classBodyOffset? "C" (mask (splitLibrary accented).2) = some 21 := by decide +kernel
  obtain ⟨-, -, -, -, -, directives, bodies⟩ := mask_offsets accented
  obtain ⟨-, -, start, stop⟩ := directives 12 23 directive
  exact ⟨directive, body, start, stop, bodies "C" 21 body⟩

end TemplateWeaver.Source
