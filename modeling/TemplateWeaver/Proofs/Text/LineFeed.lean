import Mathlib.Data.List.Basic
import TemplateWeaver.Proofs.Text.Trim

/-!
Line feeds and lines. A text has as many lines as line feeds, and one more if it goes on behind the last of them
(`length_lines`). Every line feed cuts, wherever it comes from: texts with line feeds between them have, put together,
the lines that they have one by one (`Code.lines_intercalate`).
-/
namespace TemplateWeaver.Text

def endsInLineFeed (s : String) : Bool :=
  s.toList.getLast? == some '\n'

/-! ### How many lines there are -/

/-- A line feed is thought before the text, so that the text goes on behind the last one exactly if it does not end
    in one. -/
theorem length_linesFrom {line : List Char} (flat : '\n' ∉ line) (cs : List Char) :
    (linesFrom line cs).length + (if ('\n' :: (line.reverse ++ cs)).getLast? = some '\n' then 1 else 0)
      = cs.count '\n' + 1 := by
  induction cs generalizing line with
  | nil =>
    cases line with
    | nil => rfl
    | cons c line =>
      have notFeed : c ≠ '\n' := fun same => flat (by simp [same])
      simp [linesFrom, notFeed, List.getLast?_cons, List.getLast?_append]
  | cons c cs ih =>
    by_cases feed : c = '\n'
    · subst feed
      have later := @ih [] (by simp)
      rw [linesFrom, List.length_cons, List.count_cons_self]
      rw [List.reverse_nil, List.nil_append] at later
      rw [← List.cons_append, List.getLast?_append_cons]
      omega
    · have longer := @ih (c :: line) (by simp [flat, Ne.symm feed])
      rw [linesFrom.eq_3 _ _ _ feed, List.count_cons_of_ne feed]
      simpa using longer

/-- The lines of a text are its line feeds and, if it does not end in one, the line behind the last. -/
theorem length_lines {s : String} (some : s ≠ "") :
    (lines s).length + (if endsInLineFeed s then 1 else 0) = s.toList.count '\n' + 1 := by
  have counted := @length_linesFrom [] (by simp) s.toList
  rw [List.reverse_nil, List.nil_append] at counted
  have last : ('\n' :: s.toList).getLast? = s.toList.getLast? := by
    rw [List.getLast?_cons_of_ne_nil]
    simpa using some
  rw [last] at counted
  simpa [lines, endsInLineFeed] using counted

theorem lines_ne_nil {s : String} (some : s ≠ "") : lines s ≠ [] := by
  intro none
  have counted := length_lines some
  rw [none, List.length_nil] at counted
  by_cases ended : endsInLineFeed s = true
  · have feed : '\n' ∈ s.toList := List.mem_of_getLast? (by simpa [endsInLineFeed] using ended)
    have positive := List.count_pos_iff.mpr feed
    rw [if_pos ended] at counted
    omega
  · rw [if_neg ended] at counted
    omega

/-- A text that is empty or ends in a line feed has one line for each line feed. -/
theorem length_lines_of_ended {s : String} (ended : ('\n' :: s.toList).getLast? = some '\n') :
    (lines s).length = s.toList.count '\n' := by
  have counted := @length_linesFrom [] (by simp) s.toList
  rw [List.reverse_nil, List.nil_append, if_pos ended] at counted
  rw [lines, List.length_map]
  omega

/-! ### Texts put together -/

theorem trimChars_append_blank {c : Char} (blank : isBlank c = true) (cs : List Char) :
    trimChars (cs ++ [c]) = trimChars cs := by
  unfold trimChars trimFront trimBack
  rw [List.dropWhile_append]
  by_cases empty : cs.dropWhile isBlank = []
  · simp [empty, blank]
  · simp [empty, blank]

/-- What ends a line is trimmed off anyway. -/
theorem trimChars_endedLine (line : List Char) : trimChars (endedLine line) = trimChars line.reverse := by
  rw [endedLine.eq_def]
  split
  · rw [List.reverse_cons, trimChars_append_blank (by decide)]
  · rfl

/-- Lines of characters, trimmed, without the blank ones. -/
def solidLines (lines : List (List Char)) : List (List Char) :=
  (lines.map trimChars).filter (· ≠ [])

theorem solidLines_cons (line : List Char) (rest : List (List Char)) :
    solidLines (line :: rest) = solidLines [line] ++ solidLines rest := by
  simp [solidLines, ← List.filter_append]

theorem solidLines_cut (line front back : List Char) :
    solidLines (linesFrom line (front ++ '\n' :: back))
      = solidLines (linesFrom line front) ++ solidLines (linesFrom [] back) := by
  induction front generalizing line with
  | nil =>
    have last : solidLines [endedLine line] = solidLines (linesFrom line []) := by
      cases line with
      | nil => rfl
      | cons c line => simp [solidLines, linesFrom, trimChars_endedLine]
    rw [← last]
    exact solidLines_cons _ _
  | cons c front ih =>
    by_cases feed : c = '\n'
    · subst feed
      rw [List.cons_append, linesFrom, linesFrom, solidLines_cons, ih, solidLines_cons _ (linesFrom [] front),
        List.append_assoc]
    · rw [List.cons_append, linesFrom.eq_3 _ _ _ feed, linesFrom.eq_3 _ _ _ feed, ih]

end TemplateWeaver.Text

namespace TemplateWeaver.Code

variable {β : Type}

theorem lines_eq_solidLines (text : String) :
    (lines text : List (Segment β))
      = (Text.solidLines (Text.linesFrom [] text.toList)).map fun line => .line (String.ofList line) := by
  simp only [lines, Text.lines, Text.solidLines, Text.trim, List.map_map, List.filter_map, Function.comp_def,
    String.toList_ofList]
  congr 2
  funext line
  simp

theorem lines_cut (front back : String) :
    (lines (front ++ "\n" ++ back) : List (Segment β)) = lines front ++ lines back := by
  have chars : (front ++ "\n" ++ back).toList = front.toList ++ '\n' :: back.toList := by simp
  rw [lines_eq_solidLines, lines_eq_solidLines, lines_eq_solidLines, chars, Text.solidLines_cut, List.map_append]

/-- Texts with line feeds between them have the lines that they have one by one. -/
theorem lines_intercalate (texts : List String) :
    (lines ("\n".intercalate texts) : List (Segment β)) = allLines texts := by
  induction texts with
  | nil => rfl
  | cons text texts ih =>
    cases texts with
    | nil => simp [allLines]
    | cons next texts =>
      rw [String.intercalate_cons_of_ne_nil (by simp), lines_cut, ih]
      rfl

end TemplateWeaver.Code
