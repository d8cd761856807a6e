import Mathlib.Data.List.TakeWhile
import TemplateWeaver.Code.Segment

/-!
Trimmed texts, texts without line feeds and texts on one line. A flat text has one line at most; a
text put on one line is flat, and a text without blank characters is on one line already.
-/
namespace TemplateWeaver.Text

/-! ### Trimming -/

/-- A text is its trimmed form between blank characters. -/
theorem trim_split (s : String) : ∃ front back, s.toList = front ++ (trim s).toList ++ back
    ∧ (∀ c ∈ front, isBlank c = true) ∧ (∀ c ∈ back, isBlank c = true) := by
  refine ⟨s.toList.takeWhile isBlank, ((trimFront s.toList).reverse.takeWhile isBlank).reverse, ?_, ?_, ?_⟩
  · have inner : trimBack (trimFront s.toList) ++ ((trimFront s.toList).reverse.takeWhile isBlank).reverse
        = trimFront s.toList := by
      rw [trimBack, ← List.reverse_append, List.takeWhile_append_dropWhile, List.reverse_reverse]
    rw [List.append_assoc, trim, String.toList_ofList, trimChars, inner, trimFront, List.takeWhile_append_dropWhile]
  · exact fun c member => List.mem_takeWhile_imp member
  · intro c member
    exact List.mem_takeWhile_imp (List.mem_reverse.mp member)

theorem not_isBlank_getLast_trim {s : String} {c : Char} (last : (trim s).toList.getLast? = some c) :
    isBlank c = false := by
  rw [trim, String.toList_ofList, trimChars, trimBack, List.getLast?_reverse] at last
  have := List.head?_dropWhile_not isBlank (trimFront s.toList).reverse
  rw [last] at this
  simpa using this

theorem trimFront_append {c : Char} {cs ds : List Char} (first : ds.head? = some c) (solid : isBlank c = false) :
    trimFront (cs ++ ds) = trimFront cs ++ ds := by
  obtain ⟨rest, rfl⟩ := List.head?_eq_some_iff.mp first
  unfold trimFront
  rw [List.dropWhile_append]
  split
  · rename_i blank
    rw [List.isEmpty_iff.mp blank, List.dropWhile_cons_of_neg (by simp [solid]), List.nil_append]
  · rfl

theorem trimBack_append {c : Char} {cs ds : List Char} (last : cs.getLast? = some c) (solid : isBlank c = false) :
    trimBack (cs ++ ds) = cs ++ trimBack ds := by
  have first : cs.reverse.head? = some c := by rw [List.head?_reverse, last]
  have reversed : trimFront (ds.reverse ++ cs.reverse) = trimFront ds.reverse ++ cs.reverse :=
    trimFront_append first solid
  unfold trimBack trimFront at *
  rw [List.reverse_append, reversed, List.reverse_append, List.reverse_reverse]

/-- Trimming a text does not touch what stands between characters that are not blank. -/
theorem trim_around {before middle behind : String} {c d : Char} (first : middle.toList.head? = some c)
    (last : middle.toList.getLast? = some d) (solidFirst : isBlank c = false) (solidLast : isBlank d = false) :
    trim (before ++ middle ++ behind)
      = String.ofList (trimFront before.toList) ++ middle ++ String.ofList (trimBack behind.toList) := by
  have inner : (middle.toList ++ behind.toList).head? = some c := by rw [List.head?_append, first, Option.some_or]
  have outer : (trimFront before.toList ++ middle.toList).getLast? = some d := by
    rw [List.getLast?_append, last, Option.some_or]
  rw [trim, trimChars, String.toList_append, String.toList_append, List.append_assoc, trimFront_append inner solidFirst,
    ← List.append_assoc, trimBack_append outer solidLast, String.ofList_append, String.ofList_append,
    String.ofList_toList]

/-- A text with no blank character at either end is trimmed already. -/
theorem trim_eq {s : String} {c d : Char} (first : s.toList.head? = some c) (last : s.toList.getLast? = some d)
    (solidFirst : isBlank c = false) (solidLast : isBlank d = false) : trim s = s := by
  have between : trim ("" ++ s ++ "") = "" ++ s ++ "" := trim_around first last solidFirst solidLast
  rwa [String.empty_append, String.append_empty] at between

/-! ### Flat texts -/

theorem linesFrom_flat {cs : List Char} (flat : '\n' ∉ cs) (line : List Char) :
    linesFrom line cs = if line.reverse ++ cs = [] then [] else [line.reverse ++ cs] := by
  induction cs generalizing line with
  | nil => cases line <;> simp [linesFrom]
  | cons c cs ih =>
    have notFeed : c ≠ '\n' := fun same => flat (by simp [same])
    have rest : '\n' ∉ cs := fun member => flat (by simp [member])
    rw [linesFrom.eq_3 _ _ _ notFeed, ih rest]
    simp

theorem lines_flat {s : String} (flat : '\n' ∉ s.toList) : lines s = if s = "" then [] else [s] := by
  rw [lines, linesFrom_flat flat]
  by_cases empty : s = "" <;> simp [empty]

theorem mem_endedLine {c : Char} (solid : isBlank c = false) {line : List Char} (member : c ∈ line) :
    c ∈ endedLine line := by
  rw [endedLine.eq_def]
  split
  · have other : c ≠ '\r' := by
      rintro rfl
      exact absurd solid (by decide)
    simpa [other] using member
  · exact List.mem_reverse.mpr member

/-- A character that is not blank stands in one of the lines. -/
theorem exists_mem_linesFrom {c : Char} (solid : isBlank c = false) {cs line : List Char}
    (member : c ∈ line ∨ c ∈ cs) : ∃ result ∈ linesFrom line cs, c ∈ result := by
  induction cs generalizing line with
  | nil =>
    obtain inside | absurd := member
    · refine ⟨line.reverse, ?_, List.mem_reverse.mpr inside⟩
      rw [linesFrom, if_neg (by simpa using List.ne_nil_of_mem inside)]
      exact List.mem_singleton_self _
    · cases absurd
  | cons d cs ih =>
    by_cases feed : d = '\n'
    · subst feed
      rw [linesFrom]
      by_cases inside : c ∈ line
      · exact ⟨endedLine line, List.mem_cons_self, mem_endedLine solid inside⟩
      · have later : c ∈ cs := by
          rcases member with earlier | here
          · exact absurd earlier inside
          · rcases List.mem_cons.mp here with rfl | later
            · exact absurd solid (by decide)
            · exact later
        obtain ⟨result, among, holds⟩ := ih (.inr later)
        exact ⟨result, List.mem_cons_of_mem _ among, holds⟩
    · rw [linesFrom.eq_3 _ _ _ feed]
      refine ih ?_
      rcases member with earlier | here
      · exact .inl (List.mem_cons_of_mem _ earlier)
      · rcases List.mem_cons.mp here with rfl | later
        · exact .inl List.mem_cons_self
        · exact .inr later

/-- Trimming keeps what is not blank. -/
theorem mem_trim {c : Char} (solid : isBlank c = false) {s : String} (member : c ∈ s.toList) : c ∈ (trim s).toList := by
  obtain ⟨front, back, split, blankFront, blankBack⟩ := trim_split s
  rw [split, List.append_assoc] at member
  rcases List.mem_append.mp member with early | rest
  · rw [blankFront c early] at solid
    cases solid
  rcases List.mem_append.mp rest with inside | late
  · exact inside
  · rw [blankBack c late] at solid
    cases solid

/-! ### Texts on one line -/

/-- A word has characters, and none of them is blank. -/
theorem word_of_mem_wordsFrom {cs word result : List Char} (solid : ∀ c ∈ word, isBlank c = false)
    (member : result ∈ wordsFrom word cs) : result ≠ [] ∧ ∀ c ∈ result, isBlank c = false := by
  induction cs generalizing word with
  | nil =>
    cases word with
    | nil => simp [wordsFrom] at member
    | cons d word =>
      obtain rfl : result = (d :: word).reverse := by simpa [wordsFrom] using member
      exact ⟨by simp, fun c inside => solid c (List.mem_reverse.mp inside)⟩
  | cons d cs ih =>
    rw [wordsFrom] at member
    by_cases blank : isBlank d = true
    · cases word with
      | nil =>
        simp only [blank, ↓reduceIte, List.isEmpty_nil] at member
        exact ih (by simp) member
      | cons e word =>
        simp only [blank, ↓reduceIte, List.isEmpty_cons, Bool.false_eq_true, List.mem_cons] at member
        rcases member with rfl | later
        · exact ⟨by simp, fun c inside => solid c (List.mem_reverse.mp inside)⟩
        · exact ih (by simp) later
    · simp only [blank, Bool.false_eq_true, ↓reduceIte] at member
      refine ih ?_ member
      intro c inside
      rcases List.mem_cons.mp inside with rfl | inside
      · simpa using blank
      · exact solid c inside

theorem not_mem_intercalate {c : Char} {separator : String} {parts : List String} (absent : c ∉ separator.toList)
    (without : ∀ part ∈ parts, c ∉ part.toList) : c ∉ (separator.intercalate parts).toList := by
  induction parts with
  | nil => simp
  | cons part parts ih =>
    have rest := ih fun other member => without other (by simp [member])
    cases parts with
    | nil => simpa using without
    | cons next parts =>
      rw [String.intercalate_cons_of_ne_nil (by simp)]
      simp only [String.toList_append, List.mem_append, not_or]
      exact ⟨⟨without part (by simp), absent⟩, rest⟩

theorem oneLine_flat (s : String) : '\n' ∉ (oneLine s).toList := by
  refine not_mem_intercalate (by decide) ?_
  intro word member feed
  obtain ⟨cs, inside, rfl⟩ := List.mem_map.mp member
  have solid := (word_of_mem_wordsFrom (by simp) inside).2 '\n' (by simpa using feed)
  revert solid
  decide

theorem wordsFrom_solid {cs : List Char} (solid : ∀ c ∈ cs, isBlank c = false) (word : List Char) :
    wordsFrom word cs = if word.reverse ++ cs = [] then [] else [word.reverse ++ cs] := by
  induction cs generalizing word with
  | nil => cases word <;> simp [wordsFrom]
  | cons c cs ih =>
    rw [wordsFrom, solid c (by simp), if_neg Bool.false_ne_true, ih fun d member => solid d (by simp [member])]
    simp

theorem oneLine_solid {s : String} (solid : ∀ c ∈ s.toList, isBlank c = false) : oneLine s = s := by
  rw [oneLine, words, wordsFrom_solid solid]
  by_cases empty : s = "" <;> simp [empty]

/-- A blank character behind a word ends it. -/
theorem wordsFrom_cut {cs : List Char} (solid : ∀ c ∈ cs, isBlank c = false) {word : List Char}
    (some : word.reverse ++ cs ≠ []) (rest : List Char) :
    wordsFrom word (cs ++ ' ' :: rest) = (word.reverse ++ cs) :: wordsFrom [] rest := by
  have space : isBlank ' ' = true := by decide
  induction cs generalizing word with
  | nil =>
    have begun : word.isEmpty = false := by simpa using some
    simp [wordsFrom, space, begun]
  | cons c cs ih =>
    rw [List.cons_append, wordsFrom, solid c (by simp), if_neg Bool.false_ne_true,
      ih (fun d member => solid d (by simp [member])) (by simp)]
    simp

theorem words_intercalate {parts : List String}
    (each : ∀ part ∈ parts, part ≠ "" ∧ ∀ c ∈ part.toList, isBlank c = false) :
    words (" ".intercalate parts) = parts := by
  induction parts with
  | nil => rfl
  | cons part parts ih =>
    obtain ⟨some, solid⟩ := each part (by simp)
    have begun : part.toList ≠ [] := by simpa using some
    cases parts with
    | nil => simp [words, wordsFrom_solid solid, begun]
    | cons next parts =>
      have later := ih fun other member => each other (by simp [member])
      have chars : (part ++ " " ++ " ".intercalate (next :: parts)).toList
          = part.toList ++ ' ' :: (" ".intercalate (next :: parts)).toList := by simp
      rw [String.intercalate_cons_of_ne_nil (by simp), words, chars, wordsFrom_cut solid (by simpa using some),
        List.map_cons, ← words, later]
      simp

/-- On one line a text has the words that it has. -/
theorem words_oneLine (s : String) : words (oneLine s) = words s := by
  refine words_intercalate ?_
  intro word member
  obtain ⟨cs, inside, rfl⟩ := List.mem_map.mp member
  obtain ⟨some, solid⟩ := word_of_mem_wordsFrom (by simp) inside
  exact ⟨by simpa using some, by rwa [String.toList_ofList]⟩

end TemplateWeaver.Text

namespace TemplateWeaver.Code

variable {β : Type}

theorem lines_flat {text : String} (flat : '\n' ∉ text.toList) :
    (lines text : List (Segment β)) = if Text.trim text = "" then [] else [.line (Text.trim text)] := by
  rw [lines, Text.lines_flat flat]
  by_cases empty : text = ""
  · subst empty
    rfl
  · by_cases blank : Text.trim text = "" <;> simp [empty, blank]

/-- A text that is not blank has lines. -/
theorem lines_ne_nil {text : String} {c : Char} (member : c ∈ text.toList) (solid : Text.isBlank c = false) :
    (lines text : List (Segment β)) ≠ [] := by
  obtain ⟨line, among, inside⟩ := Text.exists_mem_linesFrom solid (.inr member : c ∈ [] ∨ c ∈ text.toList)
  have kept : c ∈ (Text.trim (String.ofList line)).toList := Text.mem_trim solid (by rwa [String.toList_ofList])
  refine List.ne_nil_of_mem (a := .line (Text.trim (String.ofList line))) (List.mem_map_of_mem ?_)
  refine List.mem_filter.mpr ⟨List.mem_map_of_mem (List.mem_map_of_mem among), ?_⟩
  rw [decide_eq_true_eq]
  intro empty
  rw [empty] at kept
  cases kept

end TemplateWeaver.Code
