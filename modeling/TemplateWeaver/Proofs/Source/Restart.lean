import Mathlib.Data.List.Forall2
import Mathlib.Logic.Relation
import TemplateWeaver.Proofs.Source.Offsets

/-!
Beginning anew. The scanner looks up to two bytes ahead, so that what it makes of a text depends on where the
text ends. Between two rounds of a sweep this does not matter: the part before is scanned alone as it is in
the text, and so is the part behind (`scan_restarts`). Where such places are does not depend on the byte that
line comments are overwritten with, and there is one behind every byte that masking leaves as it is.
-/
namespace TemplateWeaver.Source

open Text (bytes byteSize)
open Relation (ReflTransGen)

/-- One round of a sweep leads from a state to the next. -/
def Sweep.Round (fill : UInt8) (code : String) (s t : Sweep) : Prop :=
  s.round? fill code = some t

instance (fill : UInt8) (code : String) (s t : Sweep) : Decidable (s.Round fill code t) :=
  inferInstanceAs (Decidable (s.round? fill code = some t))

/-- A sweep comes to an offset between two of its rounds, or at its end. -/
def StandsAt (fill : UInt8) (code : String) (k : Nat) : Prop :=
  ∃ out, ReflTransGen (Sweep.Round fill code) ⟨0, bytes code⟩ ⟨k, out⟩

/-- An offset to begin anew at: a sweep comes to it, and it lies between two characters. -/
structure IsRestart (fill : UInt8) (code : String) (k : Nat) : Prop where
  stands : StandsAt fill code k
  cuts : CutsAt code k

/-! ### Sweeps round by round -/

section Rounds
variable {fill : UInt8} {code : String} {s t : Sweep} {read done todo : List UInt8}

theorem Swept.index_le (swept : Swept fill code s read done todo) : s.index ≤ (bytes code).length := by
  rw [swept.length_bytes]
  exact Nat.le_add_right ..

theorem Sweep.Round.index_lt_length (round : s.Round fill code t) : s.index < (bytes code).length := by
  obtain ⟨b, here, -⟩ := Option.bind_eq_some_iff.mp round
  exact (List.getElem?_eq_some_iff.mp here).1

theorem Swept.next (swept : Swept fill code s read done todo) (round : s.Round fill code t) :
    (∃ read done todo, Swept fill code t read done todo)
      ∧ ∀ i b, s.index ≤ i → i + 1 < t.index → (scan fill .code (bytes code))[i]? = some b → IsCover fill b := by
  obtain ⟨u, round', -, swept', covers⟩ := swept.round? round.index_lt_length
  obtain rfl : u = t := Option.some.inj (round'.symm.trans round)
  exact ⟨swept', covers⟩

theorem exists_swept (path : ReflTransGen (Sweep.Round fill code) ⟨0, bytes code⟩ s) :
    ∃ read done todo, Swept fill code s read done todo := by
  induction path with
  | refl => exact ⟨_, _, _, swept_start fill code⟩
  | tail _ round ih =>
    obtain ⟨read, done, todo, swept⟩ := ih
    exact (swept.next round).1

/-- Every byte is passed in some round. -/
theorem Swept.exists_round_over (swept : Swept fill code s read done todo) {i : Nat} (start : s.index ≤ i)
    (inRange : i < (bytes code).length) :
    ∃ u t, ReflTransGen (Sweep.Round fill code) s u ∧ u.Round fill code t ∧ u.index ≤ i ∧ i < t.index := by
  -- By induction on the bytes up to `i` that are left.
  obtain ⟨left, distance⟩ : ∃ left, i - s.index < left := ⟨_, Nat.lt_succ_self _⟩
  induction left generalizing s read done todo with
  | zero => exact absurd distance (Nat.not_lt_zero _)
  | succ left ih =>
    obtain ⟨t, round, later, ⟨read', done', todo', swept'⟩, -⟩ := swept.round? (Nat.lt_of_le_of_lt start inRange)
    by_cases beyond : i < t.index
    · exact ⟨s, t, .refl, round, start, beyond⟩
    · obtain ⟨u, v, path, last, near, far⟩ := ih swept' (Nat.le_of_not_lt beyond) (by omega)
      exact ⟨u, v, .head round path, last, near, far⟩

theorem standsAt_zero (fill : UInt8) (code : String) : StandsAt fill code 0 :=
  ⟨_, .refl⟩

theorem standsAt_length (fill : UInt8) (code : String) : StandsAt fill code (bytes code).length := by
  by_cases empty : (bytes code).length = 0
  · rw [empty]
    exact standsAt_zero fill code
  · obtain ⟨u, t, path, round, -, beyond⟩ := (swept_start fill code).exists_round_over
      (Nat.zero_le ((bytes code).length - 1)) (by omega)
    obtain ⟨read, done, todo, swept⟩ := exists_swept (path.tail round)
    have stop : t.index = (bytes code).length := by
      have := swept.index_le
      omega
    exact ⟨t.out, stop ▸ path.tail round⟩

/-- A sweep comes to stand behind a byte that no comment or literal is written with. -/
theorem standsAt_behind {i : Nat} {b : UInt8} (found : (scan fill .code (bytes code))[i]? = some b)
    (inRange : i < (bytes code).length) (solid : ¬IsCover fill b) : StandsAt fill code (i + 1) := by
  obtain ⟨u, t, path, round, near, beyond⟩ := (swept_start fill code).exists_round_over (Nat.zero_le i) inRange
  obtain ⟨read, done, todo, swept⟩ := exists_swept path
  have last : ¬i + 1 < t.index := fun inside => solid ((swept.next round).2 i b near inside found)
  have stop : t.index = i + 1 := by omega
  exact ⟨t.out, stop ▸ path.tail round⟩

/-- What is before a place a sweep comes to, and what is behind it, are scanned apart. -/
theorem StandsAt.scan_append {k : Nat} (stands : StandsAt fill code k) :
    ∃ read todo, bytes code = read ++ todo ∧ read.length = k
      ∧ scan fill .code (bytes code) = scan fill .code read ++ scan fill .code todo := by
  obtain ⟨out, path⟩ := stands
  obtain ⟨read, done, todo, swept⟩ := exists_swept path
  have alone : scan fill .code read = done := by simpa [scan] using swept.scanned [] (.nil todo)
  exact ⟨read, todo, swept.split, swept.index.symm, by rw [alone, swept.scan_bytes]⟩

end Rounds

/-! ### The byte for line comments -/

section Refill
variable {fill : UInt8} {code : String} {s s' t : Sweep}

/-- Two sweeps at the same offset, with as many bytes written. -/
structure Sweep.Alike (s s' : Sweep) : Prop where
  index : s'.index = s.index
  length : s'.out.length = s.out.length

theorem overwrite?_refill (other : UInt8) {i j : Nat} {out out' more : List UInt8}
    (written : overwrite? fill i j out = some out') (same : more.length = out.length) :
    ∃ more', overwrite? other i j more = some more' ∧ more'.length = out'.length := by
  unfold overwrite? at written
  split at written
  · cases written
    refine ⟨_, if_pos (by rwa [same]), ?_⟩
    simp only [List.length_append, List.length_map, List.length_take, List.length_drop, same]
  · cases written

theorem comment?_refill (other : UInt8) {i stop : Nat} {out more : List UInt8}
    (round : Sweep.comment? fill i stop out = some t) (same : more.length = out.length) :
    ∃ t', Sweep.comment? other i stop more = some t' ∧ t.Alike t' := by
  obtain ⟨out', written, rfl⟩ := Option.map_eq_some_iff.mp round
  obtain ⟨more', written', same'⟩ := overwrite?_refill other written same
  exact ⟨⟨stop, more'⟩, by rw [Sweep.comment?, written']; rfl, ⟨rfl, same'⟩⟩

theorem literal?_refill {bs : List UInt8} {quote : UInt8} {i : Nat} {out more : List UInt8}
    (round : Sweep.literal? bs quote i out = some t) (same : more.length = out.length) :
    ∃ t', Sweep.literal? bs quote i more = some t' ∧ t.Alike t' := by
  obtain ⟨out', written, round⟩ := Option.bind_eq_some_iff.mp round
  obtain ⟨more', written', same'⟩ := overwrite?_refill space written same
  simp only [Sweep.literal?, written', Option.bind_some]
  split at round
  · cases round
    exact ⟨_, if_pos ‹_›, ⟨rfl, same'⟩⟩
  · obtain ⟨b, behind, rfl⟩ := Option.map_eq_some_iff.mp round
    rw [if_neg ‹_›, behind]
    exact ⟨_, rfl, ⟨rfl, same'⟩⟩

/-- How far a round leads depends on the text alone. -/
theorem Sweep.Alike.round (other : UInt8) (alike : s.Alike s') (round : s.Round fill code t) :
    ∃ t', s'.Round other code t' ∧ t.Alike t' := by
  obtain ⟨b, here, round⟩ := Option.bind_eq_some_iff.mp round
  simp only [Sweep.Round, Sweep.round?, alike.index, here, Option.bind_some]
  split at round
  · rw [if_pos ‹_›]
    obtain ⟨tail, cut, round⟩ := Option.bind_eq_some_iff.mp round
    rw [cut, Option.bind_some]
    exact comment?_refill _ round alike.length
  rw [if_neg ‹_›]
  split at round
  · rw [if_pos ‹_›]
    obtain ⟨tail, cut, round⟩ := Option.bind_eq_some_iff.mp round
    rw [cut, Option.bind_some]
    exact comment?_refill _ round alike.length
  rw [if_neg ‹_›]
  split at round
  · rw [if_pos ‹_›]
    exact literal?_refill round alike.length
  · cases round
    exact ⟨_, if_neg ‹_›, ⟨rfl, alike.length⟩⟩

theorem StandsAt.refill {k : Nat} (stands : StandsAt fill code k) (other : UInt8) : StandsAt other code k := by
  obtain ⟨out, path⟩ := stands
  have alike : ∃ t', ReflTransGen (Sweep.Round other code) ⟨0, bytes code⟩ t' ∧ (Sweep.mk k out).Alike t' := by
    generalize Sweep.mk k out = t at path
    induction path with
    | refl => exact ⟨_, .refl, ⟨rfl, rfl⟩⟩
    | tail _ round ih =>
      obtain ⟨s', path', alike⟩ := ih
      obtain ⟨t', round', alike'⟩ := alike.round other round
      exact ⟨t', path'.tail round', alike'⟩
  obtain ⟨⟨k', out'⟩, path', ⟨same, -⟩⟩ := alike
  obtain rfl : k' = k := same
  exact ⟨out', path'⟩

end Refill

/-! ### Cutting the text -/

theorem CutsAt.split {code : String} {k : Nat} (cuts : CutsAt code k) :
    bytes code = bytes (Text.takeBytes code k) ++ bytes (Text.dropBytes code k)
      ∧ (bytes (Text.takeBytes code k)).length = k := by
  obtain ⟨front, back, rfl, size⟩ := String.Pos.Raw.isValid_iff_exists_append.mp cuts.2
  obtain rfl : k = byteSize front.toList := by
    rw [← Text.utf8ByteSize_eq]
    exact congrArg String.Pos.Raw.byteIdx size
  have split : (front ++ back).toList = front.toList ++ back.toList := String.toList_append
  rw [Text.takeBytes_of_split split, Text.dropBytes_of_split split, Text.bytes_ofList, Text.bytes_ofList,
    Text.bytes_eq, split, Text.encode_append, Text.length_encode]
  exact ⟨rfl, rfl⟩

theorem cutsAt_zero (code : String) : CutsAt code 0 :=
  cutsAt_byteSize (List.nil_append _).symm

theorem cutsAt_length (code : String) : CutsAt code (bytes code).length := by
  rw [Text.bytes_eq, Text.length_encode]
  exact cutsAt_byteSize (List.append_nil _).symm

theorem cutsAt_behind {code : String} {i : Nat} {b : UInt8} (found : (bytes code)[i]? = some b)
    (ascii : b.toNat < 0x80) : CutsAt code (i + 1) := by
  obtain ⟨inRange, rfl⟩ := List.getElem?_eq_some_iff.mp found
  have split : bytes code = (bytes code).take i ++ (bytes code)[i] :: (bytes code).drop (i + 1) := by
    rw [← List.drop_eq_getElem_cons inRange, List.take_append_drop]
  have behind := (Text.isValid_of_ascii ascii split).2
  rw [List.length_take, Nat.min_eq_left (Nat.le_of_lt inRange)] at behind
  exact ⟨inRange, behind⟩

theorem IsRestart.scan_append {fill : UInt8} {code : String} {k : Nat} (restart : IsRestart fill code k) :
    scan fill .code (bytes code)
      = scan fill .code (bytes (Text.takeBytes code k)) ++ scan fill .code (bytes (Text.dropBytes code k)) := by
  obtain ⟨read, todo, split, length, scanned⟩ := restart.stands.scan_append
  obtain ⟨cut, size⟩ := restart.cuts.split
  obtain ⟨rfl, rfl⟩ := List.append_inj (split.symm.trans cut) (length.trans size.symm)
  exact scanned

theorem IsRestart.mask_append {code : String} {k : Nat} (restart : IsRestart space code k) :
    mask code = mask (Text.takeBytes code k) ++ mask (Text.dropBytes code k) := by
  have masked : maskBytes (bytes code)
      = maskBytes (bytes (Text.takeBytes code k)) ++ maskBytes (bytes (Text.dropBytes code k)) := restart.scan_append
  rw [mask, masked, maskBytes_bytes, maskBytes_bytes, ← Text.encode_append, Text.ofBytes_encode, String.ofList_append,
    ← mask_eq, ← mask_eq]

/-- A byte of the masked text that is no space is one of the text. -/
theorem getElem?_of_mask {code : String} {i : Nat} {b : UInt8} (found : (bytes (mask code))[i]? = some b)
    (noSpace : b ≠ space) : (bytes code)[i]? = some b := by
  have aligned := (mask_blanked code).bytes
  rw [← Text.bytes_eq, ← Text.bytes_eq] at aligned
  obtain ⟨inMask, rfl⟩ := List.getElem?_eq_some_iff.mp found
  have inRange : i < (bytes code).length := aligned.length_eq ▸ inMask
  rcases aligned.get inRange inMask with same | ⟨-, blanked⟩
  · rw [List.getElem?_eq_getElem inRange]
    exact congrArg some same.symm
  · exact absurd blanked noSpace

/-- Scanning can begin anew where a sweep comes to stand between two characters, at the start and the end of the
    text among others: the two parts are scanned alone as they are in the whole. There is such a place behind
    every ASCII byte of the masked text but spaces, quotes and line feeds. -/
theorem scan_restarts (code : String) :
    (∀ fill, IsRestart fill code 0 ∧ IsRestart fill code (bytes code).length)
      ∧ (∀ fill k, IsRestart fill code k →
        scan fill .code (bytes code)
          = scan fill .code (bytes (Text.takeBytes code k)) ++ scan fill .code (bytes (Text.dropBytes code k)))
      ∧ (∀ k, IsRestart space code k → mask code = mask (Text.takeBytes code k) ++ mask (Text.dropBytes code k))
      ∧ ∀ fill i b, (bytes (mask code))[i]? = some b → b.toNat < 0x80 → b ≠ space → isQuote b = false → b ≠ lineFeed →
        IsRestart fill code (i + 1) := by
  refine ⟨?_, fun fill k restart => restart.scan_append, fun k restart => restart.mask_append, ?_⟩
  · intro fill
    exact ⟨⟨standsAt_zero fill code, cutsAt_zero code⟩, ⟨standsAt_length fill code, cutsAt_length code⟩⟩
  · intro fill i b found ascii noSpace noQuote noFeed
    have inCode := getElem?_of_mask found noSpace
    have solid : ¬IsCover space b := by
      rintro (rfl | rfl | rfl | quoted)
      · exact noSpace rfl
      · exact noSpace rfl
      · exact noFeed rfl
      · rw [noQuote] at quoted
        cases quoted
    rw [mask_eq, Text.bytes_ofList, ← maskBytes_bytes] at found
    have stands := standsAt_behind found (List.getElem?_eq_some_iff.mp inCode).1 solid
    exact ⟨stands.refill fill, cutsAt_behind inCode ascii⟩

/-- A literal that a line feed ends, an empty one before another, a slash that opens no comment, and a comment. -/
def cramped : String :=
  "'a\n''\"b\"/c//d"

theorem scan_restarts_cramped :
    mask cramped = "' \n''\" \"/c   "
      ∧ mask cramped = mask "'a" ++ mask "\n''\"b\"/c//d"
      ∧ mask cramped = mask "'a\n''" ++ mask "\"b\"/c//d"
      ∧ mask cramped = mask "'a\n''\"b\"/" ++ mask "c//d"
      ∧ scan commentMark .code (bytes cramped)
        = scan commentMark .code (bytes "'a\n''\"b\"/c") ++ scan commentMark .code (bytes "//d") := by
  have unclosed : (Sweep.mk 0 (bytes cramped)).Round space cramped ⟨2, bytes "' \n''\"b\"/c//d"⟩ := by decide +kernel
  have feed : (Sweep.mk 2 (bytes "' \n''\"b\"/c//d")).Round space cramped ⟨3, bytes "' \n''\"b\"/c//d"⟩ := by
    decide +kernel
  have empty : (Sweep.mk 3 (bytes "' \n''\"b\"/c//d")).Round space cramped ⟨5, bytes "' \n''\"b\"/c//d"⟩ := by
    decide +kernel
  have atFeed : IsRestart space cramped 2 := ⟨⟨_, .single unclosed⟩, by unfold CutsAt; decide +kernel⟩
  have atQuote : IsRestart space cramped 5 :=
    ⟨⟨_, ((ReflTransGen.single unclosed).tail feed).tail empty⟩, by unfold CutsAt; decide +kernel⟩
  obtain ⟨-, scans, masks, behind⟩ := scan_restarts cramped
  have atName : IsRestart space cramped 9 := by
    refine behind space 8 slash ?_ ?_ ?_ ?_ ?_ <;> decide +kernel
  have atComment : IsRestart commentMark cramped 10 := by
    refine behind commentMark 9 0x63 ?_ ?_ ?_ ?_ ?_ <;> decide +kernel
  exact ⟨by decide +kernel, masks 2 atFeed, masks 5 atQuote, masks 9 atName, scans commentMark 10 atComment⟩

end TemplateWeaver.Source
