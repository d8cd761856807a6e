import TemplateWeaver.Text.Cut

/-!
Texts and their UTF-8 form. The form of a text is that of its characters, one after the other, and
reading it gives the text back. An ASCII character is one byte, which is part of no other
character; offsets in bytes that fall between two characters cut a text there.
-/
namespace TemplateWeaver.Text

/-! ### The bytes of characters -/

/-- The UTF-8 form of characters. -/
def encode (cs : List Char) : List UInt8 :=
  cs.flatMap String.utf8EncodeChar

@[simp]
theorem encode_nil : encode [] = [] :=
  rfl

@[simp]
theorem encode_cons (c : Char) (cs : List Char) : encode (c :: cs) = String.utf8EncodeChar c ++ encode cs :=
  rfl

@[simp]
theorem encode_append (cs ds : List Char) : encode (cs ++ ds) = encode cs ++ encode ds := by
  simp [encode]

theorem bytes_ofList (cs : List Char) : bytes (String.ofList cs) = encode cs := by
  simp [bytes, encode, List.utf8Encode]

theorem bytes_eq (s : String) : bytes s = encode s.toList := by
  rw [← bytes_ofList, String.ofList_toList]

theorem ofBytes_encode (cs : List Char) : ofBytes (encode cs) = String.ofList cs := by
  have same : (⟨(encode cs).toArray⟩ : ByteArray) = (String.ofList cs).toByteArray := by
    apply ByteArray.ext
    simp [encode, List.utf8Encode]
  have valid : (String.ofList cs).toByteArray.IsValidUTF8 := (String.ofList cs).isValidUTF8
  unfold ofBytes
  rw [same, String.fromUTF8?, dif_pos valid]
  rfl

/-- The byte of an ASCII character. -/
def byte (c : Char) : UInt8 :=
  UInt8.ofNat c.toNat

theorem utf8EncodeChar_of_lt {c : Char} (small : c.toNat < 0x80) : String.utf8EncodeChar c = [byte c] := by
  have bound : c.val.toNat ≤ 0x7F := Nat.le_of_lt_succ small
  simp only [String.utf8EncodeChar, bound, ↓reduceIte]
  rfl

theorem le_of_mem_utf8EncodeChar {c : Char} (wide : 0x80 ≤ c.toNat) {b : UInt8}
    (member : b ∈ String.utf8EncodeChar c) : 0x80 ≤ b.toNat := by
  have large : 0x80 ≤ c.val.toNat := wide
  revert member
  fun_cases String.utf8EncodeChar c <;> intro member <;>
    simp only [List.mem_cons, List.not_mem_nil, or_false] at member
  · omega
  · rcases member with rfl | rfl <;> simp <;> omega
  · rcases member with rfl | rfl | rfl <;> simp <;> omega
  · rcases member with rfl | rfl | rfl | rfl <;> simp <;> omega

/-- The byte of an ASCII character is in the form of no other character. -/
theorem ne_byte {a c : Char} (ascii : a.toNat < 0x80) (other : c ≠ a) {b : UInt8}
    (member : b ∈ String.utf8EncodeChar c) : b ≠ byte a := by
  intro same
  have value : b.toNat = a.toNat := by
    rw [same, byte, UInt8.toNat_ofNat']
    omega
  by_cases small : c.toNat < 0x80
  · rw [utf8EncodeChar_of_lt small, List.mem_singleton] at member
    rw [member, byte, UInt8.toNat_ofNat'] at value
    exact other (Char.toNat_inj.mp (by omega))
  · have high := le_of_mem_utf8EncodeChar (by omega) member
    omega

/-- An ASCII character stands in a text as often as its byte in the form of the text. -/
theorem count_encode {a : Char} (ascii : a.toNat < 0x80) (cs : List Char) :
    (encode cs).count (byte a) = cs.count a := by
  induction cs with
  | nil => rfl
  | cons c cs ih =>
    rw [encode_cons, List.count_append, ih, List.count_cons]
    by_cases same : c = a
    · subst same
      simp [utf8EncodeChar_of_lt ascii, Nat.add_comm]
    · have absent : (String.utf8EncodeChar c).count (byte a) = 0 :=
        List.count_eq_zero.mpr fun member => ne_byte ascii same member rfl
      simp [absent, same]

/-! ### Offsets between characters -/

@[simp]
theorem byteSize_nil : byteSize [] = 0 :=
  rfl

@[simp]
theorem byteSize_cons (c : Char) (cs : List Char) : byteSize (c :: cs) = c.utf8Size + byteSize cs :=
  rfl

@[simp]
theorem byteSize_append (cs ds : List Char) : byteSize (cs ++ ds) = byteSize cs + byteSize ds := by
  induction cs with
  | nil => simp
  | cons c cs ih => rw [List.cons_append, byteSize_cons, byteSize_cons, ih, Nat.add_assoc]

theorem length_encode (cs : List Char) : (encode cs).length = byteSize cs := by
  induction cs with
  | nil => rfl
  | cons c cs ih => rw [encode_cons, List.length_append, String.length_utf8EncodeChar, ih, byteSize_cons]

theorem utf8ByteSize_eq (s : String) : s.utf8ByteSize = byteSize s.toList := by
  rw [← length_encode, ← bytes_eq, bytes]
  rfl

/-- The size of a front part is an offset between two characters. -/
theorem isValid_byteSize {s : String} {front back : List Char} (split : s.toList = front ++ back) :
    (⟨byteSize front⟩ : String.Pos.Raw).IsValid s := by
  refine String.Pos.Raw.isValid_iff_exists_append.mpr ⟨String.ofList front, String.ofList back, ?_, ?_⟩
  · rw [← String.ofList_append, ← split, String.ofList_toList]
  · apply String.Pos.Raw.ext
    show byteSize front = (String.ofList front).utf8ByteSize
    rw [utf8ByteSize_eq, String.toList_ofList]

/-- A byte in the ASCII range is a character, and the bytes before and behind it are those of texts. -/
theorem encode_split {cs : List Char} {front back : List UInt8} {b : UInt8} (ascii : b.toNat < 0x80)
    (split : encode cs = front ++ b :: back) :
    ∃ before c behind, cs = before ++ c :: behind ∧ encode before = front ∧ encode behind = back := by
  induction cs generalizing front with
  | nil => simp at split
  | cons c cs ih =>
    rw [encode_cons] at split
    rcases List.append_eq_append_iff.mp split with ⟨inner, rfl, later⟩ | ⟨_ | ⟨d, inner⟩, first, rest⟩
    · obtain ⟨before, e, behind, rfl, rfl, rfl⟩ := ih later
      exact ⟨c :: before, e, behind, rfl, rfl, rfl⟩
    · obtain ⟨before, e, behind, rfl, none, rfl⟩ := @ih [] rest.symm
      exact ⟨c :: before, e, behind, rfl, by rw [encode_cons, none, first, List.append_nil, List.append_nil], rfl⟩
    · obtain ⟨rfl, tail⟩ := List.cons.inj rest
      have small : c.toNat < 0x80 := by
        refine Nat.lt_of_not_le fun wide => ?_
        have high : 0x80 ≤ b.toNat := le_of_mem_utf8EncodeChar wide (by simp [first])
        omega
      -- The character is that byte alone.
      rw [utf8EncodeChar_of_lt small] at first
      obtain ⟨rfl, one⟩ := (List.append_eq_singleton_iff.mp first.symm).resolve_right (by simp)
      obtain rfl : inner = [] := (List.cons.inj one).2
      exact ⟨[], c, cs, rfl, rfl, tail.symm⟩

/-- Around a byte in the ASCII range are offsets between two characters. -/
theorem isValid_of_ascii {s : String} {front back : List UInt8} {b : UInt8} (ascii : b.toNat < 0x80)
    (split : bytes s = front ++ b :: back) :
    (⟨front.length⟩ : String.Pos.Raw).IsValid s ∧ (⟨front.length + 1⟩ : String.Pos.Raw).IsValid s := by
  rw [bytes_eq] at split
  obtain ⟨before, c, behind, whole, rfl, rfl⟩ := encode_split ascii split
  have size : byteSize (before ++ [c]) = (encode before).length + 1 := by
    have total := congrArg List.length split
    simp only [whole, length_encode, byteSize_append, byteSize_cons, byteSize_nil, List.length_append,
      List.length_cons] at total ⊢
    omega
  refine ⟨?_, ?_⟩
  · rw [length_encode]
    exact isValid_byteSize whole
  · have beyond : s.toList = (before ++ [c]) ++ behind := by rw [whole, List.append_assoc]; rfl
    rw [← size]
    exact isValid_byteSize beyond

theorem cutAt_append (cs ds : List Char) : cutAt (byteSize cs) (cs ++ ds) = (cs, ds) := by
  induction cs with
  | nil =>
    cases ds with
    | nil => rfl
    | cons d ds =>
      have size := d.utf8Size_pos
      simp only [List.nil_append, cutAt, byteSize_nil]
      rw [if_neg (by omega)]
  | cons c cs ih =>
    simp [cutAt, ih]

theorem takeBytes_append (cs ds : List Char) :
    takeBytes (String.ofList (cs ++ ds)) (byteSize cs) = String.ofList cs := by
  simp [takeBytes, cutAt_append]

theorem dropBytes_append (cs ds : List Char) :
    dropBytes (String.ofList (cs ++ ds)) (byteSize cs) = String.ofList ds := by
  simp [dropBytes, cutAt_append]

theorem takeBytes_of_split {s : String} {front back : List Char} (split : s.toList = front ++ back) :
    takeBytes s (byteSize front) = String.ofList front := by
  rw [← takeBytes_append front back, ← split, String.ofList_toList]

theorem dropBytes_of_split {s : String} {front back : List Char} (split : s.toList = front ++ back) :
    dropBytes s (byteSize front) = String.ofList back := by
  rw [← dropBytes_append front back, ← split, String.ofList_toList]

/-! ### Words -/

theorem dropWord?_eq_some_iff {word cs rest : List Char} : dropWord? word cs = some rest ↔ cs = word ++ rest := by
  induction word generalizing cs with
  | nil => simp [dropWord?]
  | cons w word ih =>
    cases cs with
    | nil => simp [dropWord?]
    | cons c cs =>
      rw [dropWord?]
      split
      · rename_i same
        simp [same, ih]
      · rename_i other
        simp [Ne.symm other]

end TemplateWeaver.Text
