import TemplateWeaver.Proofs.Source.Closed
import TemplateWeaver.Proofs.Source.Directive

/-!
Names of libraries. The name made of a file name is legal whatever the file is called
(`libraryName_legal`), and a name that is legal already stays as it is (`libraryName_eq_self`). A
directive with such a name holds nothing that masking would touch, so the split finds it in front of
any code, also of code that begins inside a comment or a literal left open (`splitLibrary_append`).
-/
namespace TemplateWeaver.Source

open Text (byteSize)

/-! ### Characters of a name -/

/-- A lower-case letter, a digit or an underscore, in ASCII. -/
def isLibraryNameChar (c : Char) : Bool :=
  c.isLower || c.isDigit || c == '_'

theorem isLibraryNameChar_iff {c : Char} :
    isLibraryNameChar c = true ↔
      (97 ≤ c.toNat ∧ c.toNat ≤ 122) ∨ (48 ≤ c.toNat ∧ c.toNat ≤ 57) ∨ c.toNat = 95 := by
  have lower : c.isLower = (decide (c.val ≥ 'a'.val) && decide (c.val ≤ 'z'.val)) := rfl
  have underscore : c = '_' ↔ c.toNat = 95 := by rw [← Char.toNat_inj]; rfl
  simp only [isLibraryNameChar, lower, Char.isDigit, Bool.or_eq_true, Bool.and_eq_true, decide_eq_true_eq, beq_iff_eq,
    UInt32.le_iff_toNat_le, ge_iff_le, underscore, or_assoc]
  exact Iff.rfl

theorem isPlainNameChar_iff {c : Char} :
    isPlainNameChar c = true ↔ (65 ≤ c.toNat ∧ c.toNat ≤ 90) ∨ isLibraryNameChar c = true := by
  have alphanum : c.isAlphanum = (c.isUpper || c.isLower || c.isDigit) := rfl
  have upper : c.isUpper = decide (c.val ≥ 'A'.val ∧ c.val ≤ 'Z'.val) := rfl
  simp only [isPlainNameChar, isLibraryNameChar, alphanum, upper, Bool.or_eq_true, decide_eq_true_eq,
    UInt32.le_iff_toNat_le, ge_iff_le, or_assoc]
  exact Iff.rfl

/-- Upper-case letters lie 32 places before the lower-case ones, and nothing else is changed. -/
theorem toLower_cases (c : Char) :
    (65 ≤ c.toNat ∧ c.toNat ≤ 90 ∧ c.toLower.toNat = c.toNat + 32)
      ∨ (¬(65 ≤ c.toNat ∧ c.toNat ≤ 90) ∧ c.toLower = c) := by
  delta Char.toLower
  split
  · rename_i upper
    obtain ⟨low, high⟩ := upper
    rw [ge_iff_le, UInt32.le_iff_toNat_le] at low
    rw [UInt32.le_iff_toNat_le] at high
    have sum : (c.val + ('a'.val - 'A'.val)).toNat = c.val.toNat + 32 := by
      rw [UInt32.toNat_add]
      simp at *
      omega
    exact .inl ⟨low, high, sum⟩
  · rename_i other
    rw [ge_iff_le, UInt32.le_iff_toNat_le, UInt32.le_iff_toNat_le] at other
    exact .inr ⟨other, rfl⟩

theorem isLibraryNameChar_toLower {c : Char} (letter : isPlainNameChar c = true) :
    isLibraryNameChar c.toLower = true := by
  rw [isPlainNameChar_iff] at letter
  rcases toLower_cases c with ⟨low, high, shifted⟩ | ⟨other, same⟩
  · rw [isLibraryNameChar_iff]
    omega
  · rw [same]
    exact letter.resolve_left other

theorem toLower_eq_self {c : Char} (lower : isLibraryNameChar c = true) : c.toLower = c := by
  rw [isLibraryNameChar_iff] at lower
  rcases toLower_cases c with ⟨low, high, -⟩ | ⟨-, same⟩
  · omega
  · exact same

theorem isPlain_of_isLibraryNameChar {c : Char} (lower : isLibraryNameChar c = true) : isPlain c = true := by
  simp only [isPlain, List.mem_cons, List.not_mem_nil, or_false, decide_eq_true_eq]
  rintro (rfl | rfl | rfl | rfl | rfl | rfl | rfl) <;> revert lower <;> decide

theorem isWordChar_of_isLibraryNameChar {c : Char} (lower : isLibraryNameChar c = true) :
    Text.isWordChar c = true := by
  obtain ⟨more, ranges⟩ : ∃ more, Text.wordRanges
      = (0x30, 0x39) :: (0x41, 0x5A) :: (0x5F, 0x5F) :: (0x61, 0x7A) :: more := ⟨_, rfl⟩
  rw [isLibraryNameChar_iff] at lower
  simp only [Text.isWordChar, ranges, Text.inRanges]
  grind

/-! ### Legal names -/

/-- Not empty, of lower-case letters, digits and underscores, and with no digit in front. -/
structure IsLibraryName (name : String) : Prop where
  nonempty : name ≠ ""
  chars : ∀ c ∈ name.toList, isLibraryNameChar c = true
  begins : ∀ c ∈ name.toList.head?, c.isDigit = false

theorem isLibraryNameChar_of_mem_joinNameChars {cs : List Char} {gap : Bool} {c : Char}
    (member : c ∈ joinNameChars gap cs) : isLibraryNameChar c = true := by
  induction cs generalizing gap with
  | nil => simp [joinNameChars] at member
  | cons d cs ih =>
    rw [joinNameChars] at member
    split at member
    · rename_i letter
      rcases List.mem_cons.mp member with rfl | later
      · exact isLibraryNameChar_toLower letter
      · exact ih later
    · split at member
      · exact ih member
      · rcases List.mem_cons.mp member with rfl | later
        · rfl
        · exact ih later

theorem isLibraryName_ofList {c : Char} {rest : List Char} (allowed : ∀ d ∈ c :: rest, isLibraryNameChar d = true)
    (noDigit : c.isDigit = false) : IsLibraryName (String.ofList (c :: rest)) := by
  constructor
  · simp
  · rwa [String.toList_ofList]
  · intro d first
    obtain rfl : c = d := by simpa using first
    exact noDigit

/-- Whatever a file is called, the name of its library is legal. -/
theorem libraryName_legal (fileName : String) : IsLibraryName (libraryName fileName) := by
  rw [libraryName]
  split
  · exact ⟨by decide, List.all_eq_true.mp rfl, by simp⟩
  · rename_i c rest joined
    have allowed : ∀ d ∈ c :: rest, isLibraryNameChar d = true := by
      intro d member
      rw [← joined] at member
      exact isLibraryNameChar_of_mem_joinNameChars member
    by_cases digit : c.isDigit = true
    · rw [if_pos digit]
      exact isLibraryName_ofList (List.forall_mem_cons.mpr ⟨rfl, allowed⟩) rfl
    · rw [if_neg digit]
      exact isLibraryName_ofList allowed (by simpa using digit)

theorem joinNameChars_eq_self {cs : List Char} (lower : ∀ c ∈ cs, isLibraryNameChar c = true) (gap : Bool) :
    joinNameChars gap cs = cs := by
  induction cs generalizing gap with
  | nil => rfl
  | cons c cs ih =>
    have here := lower c (by simp)
    rw [joinNameChars, if_pos (isPlainNameChar_iff.mpr (.inr here)), toLower_eq_self here,
      ih fun d member => lower d (by simp [member])]

/-- A name has no separators and no dots. -/
theorem fileStem_eq_self {cs : List Char} (lower : ∀ c ∈ cs, isLibraryNameChar c = true) : fileStem cs = cs := by
  have unparted : ∀ c ∈ cs.reverse, (c != '/' && c != '\\') = true := by
    intro c member
    have here := lower c (List.mem_reverse.mp member)
    rw [Bool.and_eq_true, bne_iff_ne, bne_iff_ne]
    constructor <;> rintro rfl <;> exact absurd here (by decide)
  have undotted : ∀ c ∈ cs, (c != '.') = true := by
    intro c member
    have here := lower c member
    rw [bne_iff_ne]
    rintro rfl
    exact absurd here (by decide)
  rw [fileStem, List.takeWhile_eq_self_iff.mpr unparted, List.reverse_reverse, List.takeWhile_eq_self_iff.mpr undotted]

/-- A legal name is the library name of a file that is called so. -/
theorem libraryName_eq_self {name : String} (legal : IsLibraryName name) : libraryName name = name := by
  rcases split : name.toList with _ | ⟨c, rest⟩
  · exact absurd (String.toList_eq_nil_iff.mp split) legal.nonempty
  · have noDigit : c.isDigit = false := legal.begins c (by rw [split]; rfl)
    rw [libraryName, fileStem_eq_self legal.chars, joinNameChars_eq_self legal.chars, split]
    simp only [noDigit, Bool.false_eq_true, ↓reduceIte]
    rw [← split, String.ofList_toList]

/-! ### The directive -/

theorem State.run_plain {cs : List Char} (plain : ∀ c ∈ cs, isPlain c = true) : State.code.run ' ' cs = cs := by
  induction cs with
  | nil => rfl
  | cons c cs ih =>
    have here := plain c (by simp)
    have noSlash : c ≠ '/' := by
      rintro rfl
      exact absurd here (by decide)
    rw [State.run_cons, State.step_plain here rfl, ih fun d member => plain d (by simp [member])]
    simp [State.write, State.reveal, noSlash]

/-- Masking leaves a line of plain characters as it is, and the text behind it is masked as if it stood alone. -/
theorem mask_plain_line {text : String} (plain : ∀ c ∈ text.toList, isPlain c = true) (code : String) :
    mask (text ++ "\n" ++ code) = text ++ "\n" ++ mask code := by
  have ends : State.code.after text.toList = .code := State.after_plain plain
  have endsLine : State.code.after (text ++ "\n").toList = .code := by
    rw [String.toList_append, State.after_append, ends]
    rfl
  have alone : mask text = text := by rw [mask_eq, State.run_plain plain, String.ofList_toList]
  rw [mask_append endsLine, mask_append ends, alone]
  rfl

/-- A directive of plain characters on a line of its own is split off from whatever follows. -/
theorem splitLibrary_append {directive : String} {c d : Char} (reads : ReadsDirective directive.toList)
    (plain : ∀ c ∈ directive.toList, isPlain c = true) (first : directive.toList.head? = some c)
    (last : directive.toList.getLast? = some d) (solidFirst : Text.isBlank c = false)
    (solidLast : Text.isBlank d = false) (code : String) :
    splitLibrary (directive ++ "\n" ++ code) = (some directive, code) := by
  have flat : '\n' ∉ directive.toList := fun feed => absurd (plain _ feed) (by decide)
  have line : firstLine (directive ++ "\n" ++ mask code).toList = directive.toList ++ ['\n'] := by
    rw [String.append_assoc, String.toList_append, firstLine_append flat, String.toList_append]
    rfl
  have shown : mask (directive ++ "\n" ++ code) = directive ++ "\n" ++ mask code := mask_plain_line plain code
  have starts : ReadsDirective (firstLine (directive ++ "\n" ++ mask code).toList) := by
    rw [line]
    exact reads.append ['\n']
  have leads : LeadsAt (mask (directive ++ "\n" ++ code)) 0 := by
    rw [shown]
    exact ⟨[], _, rfl, rfl, .inl rfl, by simp, starts⟩
  have found : findDirective 0 true (mask (directive ++ "\n" ++ code)).toList
      = some (0, byteSize (directive.toList ++ ['\n'])) := by
    have here := findDirective_blank 0 true (by simp) (readsDirective_firstLine_iff.mp starts) (.inl ⟨rfl, rfl⟩)
    rwa [List.nil_append, List.nil_append, line, Nat.zero_add, Nat.zero_add, ← shown] at here
  obtain ⟨q, span⟩ := directiveSpan?_leading leads
  obtain ⟨-, rfl⟩ := Prod.mk.inj (Option.some.inj (found.symm.trans (directiveSpan?_eq_some span).1))
  have at_ : LineAt (directive ++ "\n" ++ code) 0 (byteSize (directive.toList ++ ['\n'])) []
      (directive.toList ++ ['\n']) code.toList :=
    ⟨by simp, .inl rfl, .inl ⟨_, flat, rfl⟩, rfl, rfl⟩
  have trimmed : Text.trim (directive ++ "\n") = directive := by
    have around : Text.trim ("" ++ directive ++ "\n") = "" ++ directive ++ "" :=
      Text.trim_around first last solidFirst solidLast
    simpa using around
  rw [at_.splitLibrary_eq span, List.nil_append, String.ofList_append, String.ofList_toList, String.ofList_toList]
  exact congrArg (fun text => (some text, code)) trimmed

theorem readsDirective_of_legal {name : String} (legal : IsLibraryName name) :
    ReadsDirective ("library ".toList ++ (name.toList ++ [';'])) := by
  rcases split : name.toList with _ | ⟨first, rest⟩
  · exact absurd (String.toList_eq_nil_iff.mp split) legal.nonempty
  have lower : ∀ c ∈ first :: rest, isLibraryNameChar c = true := split ▸ legal.chars
  have begins : first.isAlpha = true ∨ first = '_' := by
    have alpha : first.isAlpha = (first.isUpper || first.isLower) := rfl
    have noDigit : first.isDigit = false := legal.begins first (by rw [split]; rfl)
    have here := lower first (by simp)
    rw [isLibraryNameChar, noDigit, Bool.or_false, Bool.or_eq_true, beq_iff_eq] at here
    refine here.imp_left fun letter => ?_
    rw [alpha, letter, Bool.or_true]
  have named : ∀ c ∈ rest, Text.isWordChar c = true ∨ c = '.' :=
    fun c member => .inl (isWordChar_of_isLibraryNameChar (lower c (by simp [member])))
  have blank : ∀ c ∈ [' '], isTabOrSpace c = true := List.all_eq_true.mp rfl
  have reads := @ReadsDirective.intro [] [' '] rest [] [] first (by simp) (by simp) blank begins named (by simp)
  simpa using reads

/-- Whatever a file is called, its library has a legal name, which is also the library name of a file called so, and
    the directive with that name is split off again from any code behind it. -/
theorem libraryDirective_split_off (fileName code : String) :
    IsLibraryName (libraryName fileName) ∧ libraryName (libraryName fileName) = libraryName fileName ∧
      splitLibrary (libraryDirective none none fileName ++ "\n" ++ code)
        = (some (libraryDirective none none fileName), code) := by
  have legal := libraryName_legal fileName
  have text : (libraryDirective none none fileName).toList
      = "library ".toList ++ ((libraryName fileName).toList ++ [';']) := by
    simp [libraryDirective]
  have word : ∀ c ∈ "library ".toList, isPlain c = true := List.all_eq_true.mp rfl
  have plain : ∀ c ∈ (libraryDirective none none fileName).toList, isPlain c = true := by
    intro c member
    rw [text] at member
    rcases List.mem_append.mp member with front | rest
    · exact word c front
    rcases List.mem_append.mp rest with inside | ended
    · exact isPlain_of_isLibraryNameChar (legal.chars c inside)
    · obtain rfl := List.mem_singleton.mp ended
      rfl
  refine ⟨legal, libraryName_eq_self legal, ?_⟩
  refine splitLibrary_append (c := 'l') (d := ';') ?_ plain ?_ ?_ rfl rfl code
  · rw [text]
    exact readsDirective_of_legal legal
  · rw [text]
    rfl
  · rw [text, ← List.append_assoc, List.getLast?_concat]

end TemplateWeaver.Source
