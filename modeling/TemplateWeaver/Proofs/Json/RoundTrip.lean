import TemplateWeaver.Json.Parser
import TemplateWeaver.Json.Printer

/-!
Parsing undoes printing, for values without numbers whose literals all have a text (`Textual`). A
printed character is read as one piece of a literal (`pieces?_writeChar`), so a printed literal is
read with the text it was printed from (`readLiteral_write`). A printed value is then read from the
front of any longer text (`Textual.readsBack`), and the fuel that parsing starts with is enough
(`Textual.parse?_render`).
-/
namespace TemplateWeaver.Json

/-! ### Literals -/

/-- A character is printed as an escape of one letter, as one of four digits, or as it is. -/
theorem writeChar_cases (c : Char) :
    (∃ letter, writeChar c = ['\\', letter] ∧ shortEscape? letter = some c ∧ letter ≠ 'u') ∨
    (writeChar c = ['\\', 'u', '0', '0', hexDigit (c.toNat / 16), hexDigit (c.toNat % 16)] ∧ c.toNat < 0x20) ∨
    (writeChar c = [c] ∧ c ≠ '"' ∧ c ≠ '\\' ∧ ¬ c.toNat < 0x20) := by
  by_cases listed : c ∈ ['"', '\\', Char.ofNat 0x08, Char.ofNat 0x0C, '\n', '\r', '\t']
  · left
    simp only [List.mem_cons, List.not_mem_nil, or_false] at listed
    rcases listed with rfl | rfl | rfl | rfl | rfl | rfl | rfl
    · exact ⟨'"', by decide, rfl, by decide⟩
    · exact ⟨'\\', by decide, rfl, by decide⟩
    · exact ⟨'b', by decide, rfl, by decide⟩
    · exact ⟨'f', by decide, rfl, by decide⟩
    · exact ⟨'n', by decide, rfl, by decide⟩
    · exact ⟨'r', by decide, rfl, by decide⟩
    · exact ⟨'t', by decide, rfl, by decide⟩
  · right
    simp only [List.mem_cons, List.not_mem_nil, or_false, not_or] at listed
    obtain ⟨quote, backslash, backspace, feed, newline, cr, tab⟩ := listed
    have notBackspace : c.toNat ≠ 0x08 := fun same => backspace (by rw [← same, Char.ofNat_toNat])
    have notFeed : c.toNat ≠ 0x0C := fun same => feed (by rw [← same, Char.ofNat_toNat])
    by_cases control : c.toNat < 0x20
    · left
      simp [writeChar, quote, backslash, notBackspace, notFeed, newline, cr, tab, control]
    · right
      simp [writeChar, quote, backslash, notBackspace, notFeed, newline, cr, tab, control]

theorem hexValue?_hexDigit : ∀ n < 16, hexValue? (hexDigit n) = some n := by
  decide

theorem unit?_hexDigit {n : Nat} (small : n < 0x20) :
    unit? '0' '0' (hexDigit (n / 16)) (hexDigit (n % 16)) = some n := by
  have zero : hexValue? '0' = some 0 := by decide
  have high := hexValue?_hexDigit (n / 16) (by omega)
  have low := hexValue?_hexDigit (n % 16) (by omega)
  simp only [unit?, zero, high, low, Option.pure_def, Option.bind_eq_bind, Option.bind_some, Option.some.injEq]
  omega

theorem join?_unit {n : Nat} (small : n < 0xD800) (rest : List Piece) :
    join? (.unit n :: rest) = (join? rest).map (Char.ofNat n :: ·) := by
  have notHigh : isHighHalf n = false := by simp [isHighHalf]; omega
  have notLow : isLowHalf n = false := by simp [isLowHalf]; omega
  rw [join?.eq_def]
  split <;> simp_all

/-- One printed character is read as one piece, and the piece stands for the character. -/
theorem pieces?_writeChar (c : Char) :
    ∃ piece,
      (∀ rest, pieces? (writeChar c ++ rest) = (pieces? rest).map fun read => (piece :: read.1, read.2)) ∧
        ∀ pieces, join? (piece :: pieces) = (join? pieces).map (c :: ·) := by
  rcases writeChar_cases c with
    ⟨letter, written, short, notUnit⟩ | ⟨written, control⟩ | ⟨written, quote, backslash, visible⟩
  · refine ⟨.char c, fun rest => ?_, fun pieces => rfl⟩
    rw [written, List.cons_append, List.singleton_append, pieces?]
    · simp only [short, Option.bind_eq_bind, Option.bind_some]
      cases pieces? rest <;> rfl
    · exact fun _ _ _ _ _ same => absurd same notUnit
  · refine ⟨.unit c.toNat, fun rest => ?_, fun pieces => ?_⟩
    · rw [written]
      simp only [List.cons_append, List.nil_append, pieces?, unit?_hexDigit control]
      cases pieces? rest <;> rfl
    · rw [join?_unit (by omega), Char.ofNat_toNat]
  · refine ⟨.char c, fun rest => ?_, fun pieces => rfl⟩
    rw [written, List.singleton_append, pieces?]
    · rw [if_neg visible]
      cases pieces? rest <;> rfl
    · exact quote
    · exact fun _ _ _ _ _ same => absurd same backslash
    · exact fun _ _ same => absurd same backslash

theorem pieces?_flatMap_writeChar (cs rest : List Char) :
    ∃ pieces, pieces? (cs.flatMap writeChar ++ '"' :: rest) = some (pieces, rest) ∧ join? pieces = some cs := by
  induction cs with
  | nil => exact ⟨[], rfl, rfl⟩
  | cons c cs ih =>
    obtain ⟨pieces, read, joined⟩ := ih
    obtain ⟨piece, adds, stands⟩ := pieces?_writeChar c
    refine ⟨piece :: pieces, ?_, ?_⟩
    · rw [List.flatMap_cons, List.append_assoc, adds, read]
      rfl
    · rw [stands, joined]
      rfl

/-- A printed literal is read with the text it was printed from. -/
theorem readLiteral_write (s : String) (rest : List Char) :
    readLiteral (s.toList.flatMap writeChar ++ '"' :: rest) = some (some s, rest) := by
  obtain ⟨pieces, read, joined⟩ := pieces?_flatMap_writeChar s.toList rest
  simp [readLiteral, read, joined]

/-! ### Values -/

/-- A value without numbers, in which every literal has a text. -/
inductive Textual : Json → Prop where
  | null : Textual .null
  | bool (value : Bool) : Textual (.bool value)
  | text (s : String) : Textual (.ofString s)
  | array {items : List Json} (all : ∀ item ∈ items, Textual item) : Textual (.array items)
  | object {fields : List (String × Json)} (all : ∀ field ∈ fields, Textual field.2) : Textual (.ofFields fields)

theorem skipSpace_cons {c : Char} (visible : isSpace c = false) (rest : List Char) :
    skipSpace (c :: rest) = c :: rest := by
  simp [skipSpace, visible]

/-- A printed value begins with a character that is no space and closes no list. -/
theorem Textual.write_cons {json : Json} (textual : Textual json) :
    ∃ c cs, write json = c :: cs ∧ isSpace c = false ∧ c ≠ ']' := by
  cases textual with
  | null => exact ⟨'n', _, rfl, by decide, by decide⟩
  | bool value => cases value <;> exact ⟨_, _, rfl, by decide, by decide⟩
  | text s => exact ⟨'"', _, rfl, by decide, by decide⟩
  | array all => exact ⟨'[', _, rfl, by decide, by decide⟩
  | object all => exact ⟨'\x7b', _, rfl, by decide, by decide⟩

theorem Textual.skipSpace_write {json : Json} (textual : Textual json) (rest : List Char) :
    skipSpace (write json ++ rest) = write json ++ rest := by
  obtain ⟨c, cs, written, visible, -⟩ := textual.write_cons
  rw [written, List.cons_append, skipSpace_cons visible]

theorem Textual.writeItems_cons {item : Json} (textual : Textual item) (items : List Json) :
    ∃ c cs, writeItems (item :: items) = c :: cs ∧ isSpace c = false ∧ c ≠ ']' := by
  obtain ⟨c, cs, written, visible, opening⟩ := textual.write_cons
  cases items with
  | nil => exact ⟨c, cs, by rw [writeItems, written], visible, opening⟩
  | cons next items => exact ⟨c, _, by simp only [writeItems, written]; rfl, visible, opening⟩

theorem readItems_last {fuel : Nat} {cs rest : List Char} {item : Json}
    (first : readValue fuel cs = some (item, ']' :: rest)) : readItems (fuel + 1) cs = some ([item], rest) := by
  have closing : skipSpace (']' :: rest) = ']' :: rest := skipSpace_cons (by decide) rest
  simp [readItems, first, closing]

theorem readItems_more {fuel : Nat} {cs later rest : List Char} {item : Json} {items : List Json}
    (first : readValue fuel cs = some (item, ',' :: later)) (visible : skipSpace later = later)
    (others : readItems fuel later = some (items, rest)) : readItems (fuel + 1) cs = some (item :: items, rest) := by
  have comma : skipSpace (',' :: later) = ',' :: later := skipSpace_cons (by decide) later
  simp [readItems, first, comma, visible, others]

/-- Parsing takes a printed value off the front of any text, given fuel for its length. -/
def ReadsBack (json : Json) : Prop :=
  ∀ fuel rest, 2 * (write json).length ≤ fuel → readValue fuel (write json ++ rest) = some (json, rest)

theorem readItems_write {item : Json} {items : List Json}
    (all : ∀ json ∈ item :: items, Textual json ∧ ReadsBack json) {fuel : Nat} (rest : List Char)
    (enough : 2 * (writeItems (item :: items)).length < fuel) :
    readItems fuel (writeItems (item :: items) ++ ']' :: rest) = some (item :: items, rest) := by
  induction items generalizing item fuel with
  | nil =>
    obtain ⟨fuel, rfl⟩ := Nat.exists_eq_add_one_of_ne_zero (Nat.ne_zero_of_lt enough)
    obtain ⟨-, back⟩ := all item (by simp)
    simp only [writeItems] at enough ⊢
    exact readItems_last (back fuel _ (by omega))
  | cons next items ih =>
    obtain ⟨fuel, rfl⟩ := Nat.exists_eq_add_one_of_ne_zero (Nat.ne_zero_of_lt enough)
    obtain ⟨⟨-, back⟩, others⟩ := List.forall_mem_cons.mp all
    obtain ⟨c, cs, written, visible, -⟩ := (others next (by simp)).1.writeItems_cons items
    simp only [writeItems, List.length_append, List.length_cons, List.append_assoc, List.cons_append] at enough ⊢
    -- The comma pays for the step from one item to the next.
    refine readItems_more (back fuel _ (by omega)) ?_ (ih others (by omega))
    rw [written, List.cons_append, skipSpace_cons visible]

theorem writeText_append (name : String) (rest : List Char) :
    writeText (some name) ++ rest = '"' :: (name.toList.flatMap writeChar ++ '"' :: rest) := by
  rw [show writeText (some name) = writeLiteral name from rfl, writeLiteral, List.append_assoc]
  rfl

theorem readMembers_last {fuel : Nat} {name : String} {cs rest : List Char} {value : Json}
    (visible : skipSpace cs = cs) (first : readValue fuel cs = some (value, '\x7d' :: rest)) :
    readMembers (fuel + 1) (writeText (some name) ++ ':' :: cs) = some ([(some name, value)], rest) := by
  have colon : skipSpace (':' :: cs) = ':' :: cs := skipSpace_cons (by decide) cs
  have closing : skipSpace ('\x7d' :: rest) = '\x7d' :: rest := skipSpace_cons (by decide) rest
  simp [writeText_append, readMembers, readLiteral_write, colon, visible, first, closing]

theorem readMembers_more {fuel : Nat} {name : String} {cs later rest : List Char} {value : Json}
    {members : List (Option String × Json)} (visible : skipSpace cs = cs)
    (first : readValue fuel cs = some (value, ',' :: later)) (visibleLater : skipSpace later = later)
    (others : readMembers fuel later = some (members, rest)) :
    readMembers (fuel + 1) (writeText (some name) ++ ':' :: cs) = some ((some name, value) :: members, rest) := by
  have colon : skipSpace (':' :: cs) = ':' :: cs := skipSpace_cons (by decide) cs
  have comma : skipSpace (',' :: later) = ',' :: later := skipSpace_cons (by decide) later
  simp [writeText_append, readMembers, readLiteral_write, colon, visible, first, comma, visibleLater, others]

/-- The members of an object with the given fields. -/
def membersOf (fields : List (String × Json)) : List (Option String × Json) :=
  fields.map fun field => (some field.1, field.2)

theorem write_ofFields (fields : List (String × Json)) :
    write (.ofFields fields) = '\x7b' :: writeMembers (membersOf fields) ++ ['\x7d'] :=
  rfl

theorem writeMembers_cons (field : String × Json) (fields : List (String × Json)) :
    ∃ cs, writeMembers (membersOf (field :: fields)) = '"' :: cs := by
  cases fields with
  | nil => exact ⟨_, rfl⟩
  | cons next fields => exact ⟨_, rfl⟩

theorem readMembers_write {field : String × Json} {fields : List (String × Json)}
    (all : ∀ member ∈ field :: fields, Textual member.2 ∧ ReadsBack member.2) {fuel : Nat} (rest : List Char)
    (enough : 2 * (writeMembers (membersOf (field :: fields))).length < fuel) :
    readMembers fuel (writeMembers (membersOf (field :: fields)) ++ '\x7d' :: rest) =
      some (membersOf (field :: fields), rest) := by
  induction fields generalizing field fuel with
  | nil =>
    obtain ⟨fuel, rfl⟩ := Nat.exists_eq_add_one_of_ne_zero (Nat.ne_zero_of_lt enough)
    obtain ⟨textual, back⟩ := all field (by simp)
    simp only [membersOf, List.map_cons, List.map_nil, writeMembers, List.length_append, List.length_cons,
      List.append_assoc, List.cons_append] at enough ⊢
    exact readMembers_last (textual.skipSpace_write _) (back fuel _ (by omega))
  | cons next fields ih =>
    obtain ⟨fuel, rfl⟩ := Nat.exists_eq_add_one_of_ne_zero (Nat.ne_zero_of_lt enough)
    obtain ⟨⟨textual, back⟩, others⟩ := List.forall_mem_cons.mp all
    obtain ⟨cs, written⟩ := writeMembers_cons next fields
    have split : writeMembers (membersOf (field :: next :: fields)) =
        writeText (some field.1) ++ ':' :: (write field.2 ++ ',' :: writeMembers (membersOf (next :: fields))) := by
      simp [membersOf, writeMembers]
    simp only [split, List.length_append, List.length_cons, List.append_assoc, List.cons_append] at enough ⊢
    refine readMembers_more (textual.skipSpace_write _) (back fuel _ (by omega)) ?_ (ih others (by omega))
    rw [written, List.cons_append, skipSpace_cons (by decide)]

theorem readValue_array {fuel : Nat} {c : Char} {cs rest : List Char} {items : List Json}
    (visible : isSpace c = false) (more : c ≠ ']') (inside : readItems fuel (c :: cs) = some (items, rest)) :
    readValue (fuel + 1) ('[' :: c :: cs) = some (.array items, rest) := by
  rw [readValue, skipSpace_cons visible]
  simp [more, inside]

theorem readValue_object {fuel : Nat} {cs rest : List Char} {members : List (Option String × Json)}
    (inside : readMembers fuel ('"' :: cs) = some (members, rest)) :
    readValue (fuel + 1) ('\x7b' :: '"' :: cs) = some (.object members, rest) := by
  rw [readValue, skipSpace_cons (by decide)]
  simp [inside]

/-- A printed value has a character at least, so the fuel for it allows one step. -/
theorem Textual.readsBack_of_step {json : Json} (textual : Textual json)
    (step : ∀ fuel rest, 2 * (write json).length ≤ fuel + 1 →
      readValue (fuel + 1) (write json ++ rest) = some (json, rest)) : ReadsBack json := by
  intro fuel rest enough
  obtain ⟨c, cs, written, -, -⟩ := textual.write_cons
  have positive : fuel ≠ 0 := by
    rw [written, List.length_cons] at enough
    omega
  obtain ⟨fuel, rfl⟩ := Nat.exists_eq_add_one_of_ne_zero positive
  exact step fuel rest enough

/-- A printed value is read from the front of any text. -/
theorem Textual.readsBack {json : Json} (textual : Textual json) : ReadsBack json := by
  induction textual with
  | null => exact Textual.null.readsBack_of_step fun _ _ _ => rfl
  | bool value =>
    refine (Textual.bool value).readsBack_of_step fun fuel rest _ => ?_
    cases value <;> rfl
  | text s =>
    refine (Textual.text s).readsBack_of_step fun fuel rest _ => ?_
    simp only [ofString, write, writeText_append, readValue, readLiteral_write]
    rfl
  | @array items all ih =>
    refine (Textual.array all).readsBack_of_step fun fuel rest enough => ?_
    simp only [write, List.length_append, List.length_cons, List.append_assoc, List.cons_append, List.nil_append]
      at enough ⊢
    cases items with
    | nil => rfl
    | cons item items =>
      have inside := readItems_write (fun json member => ⟨all json member, ih json member⟩) rest
        (show 2 * (writeItems (item :: items)).length < fuel by omega)
      obtain ⟨c, cs, written, visible, more⟩ := (all item (by simp)).writeItems_cons items
      rw [written, List.cons_append] at inside ⊢
      exact readValue_array visible more inside
  | @object fields all ih =>
    refine (Textual.object all).readsBack_of_step fun fuel rest enough => ?_
    simp only [write_ofFields, List.length_append, List.length_cons, List.append_assoc, List.cons_append,
      List.nil_append] at enough ⊢
    cases fields with
    | nil => rfl
    | cons field fields =>
      have inside := readMembers_write (fun member given => ⟨all member given, ih member given⟩) rest
        (show 2 * (writeMembers (membersOf (field :: fields))).length < fuel by omega)
      obtain ⟨cs, written⟩ := writeMembers_cons field fields
      rw [written, List.cons_append] at inside ⊢
      exact readValue_object inside

/-- Parsing undoes printing. -/
theorem Textual.parse?_render {json : Json} (textual : Textual json) : parse? (render json) = some json := by
  have read := textual.readsBack (2 * (write json).length + 1) [] (by omega)
  have visible := textual.skipSpace_write []
  rw [List.append_nil] at read visible
  simp only [parse?, render, String.toList_ofList, visible, read]
  rfl

end TemplateWeaver.Json
