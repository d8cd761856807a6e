import Mathlib.Logic.Function.Defs
import TemplateWeaver.Code.Session
import TemplateWeaver.Proofs.Source.Closed
import TemplateWeaver.Proofs.Source.Lexer

/-!
Literals as they are read again. A reader of literals gets the text back, whatever it is and whatever follows, and a
line that a literal stands in is not cut or trimmed there when it is added to a buffer (`literal_read_back`). The
scanner finds the end of a literal at the same place: it leaves the quotes and goes on behind them as if nothing stood
before (`mask_literal_append`). Two quotes with a third behind them are the one exception.
-/
namespace TemplateWeaver.Source

open Text (byteSize)

/-! ### Reading -/

/-- What a character stands for behind a backslash. -/
def unescape? : Char → Option Char
  | '\\' => some '\\'
  | '\'' => some '\''
  | 'n' => some '\n'
  | 'r' => some '\r'
  | '$' => some '$'
  | _ => none

/-- The text of a literal behind its opening quote, and what follows the closing one. A dollar sign would interpolate
    and a literal does not go over the end of a line, so neither stands there by itself. -/
def readInside? : List Char → Option (List Char × List Char)
  | [] => none
  | '\'' :: rest => some ([], rest)
  | '\\' :: c :: rest => (unescape? c).bind fun d => (readInside? rest).map (Prod.map (d :: ·) id)
  | c :: rest => if c ∈ ['\\', '$', '\n', '\r'] then none else (readInside? rest).map (Prod.map (c :: ·) id)

/-- The text of the literal that a text begins with, and what follows it. -/
def readLiteral? (text : String) : Option (String × String) :=
  match text.toList with
  | '\'' :: rest => (readInside? rest).map (Prod.map String.ofList String.ofList)
  | _ => none

theorem readInside?_escapeChar (c : Char) (rest : List Char) :
    readInside? (escapeChar c ++ rest) = (readInside? rest).map (Prod.map (c :: ·) id) := by
  rw [escapeChar.eq_def]
  split
  case h_6 =>
    rename_i notEscape notQuote notFeed notReturn notDollar
    have plain : c ∉ ['\\', '$', '\n', '\r'] := by
      simp only [List.mem_cons, List.not_mem_nil, or_false, not_or]
      exact ⟨notEscape, notDollar, notFeed, notReturn⟩
    rw [List.singleton_append, readInside?.eq_4 _ _ notQuote fun _ _ escape _ => notEscape escape, if_neg plain]
  all_goals rfl

theorem readInside?_escapeChars (cs rest : List Char) : readInside? (escapeChars cs ++ '\'' :: rest) = some (cs, rest) := by
  induction cs with
  | nil => rfl
  | cons c cs ih =>
    rw [escapeChars, List.flatMap_cons, List.append_assoc, readInside?_escapeChar, ← escapeChars, ih]
    rfl

theorem toList_literal_append (s t : String) :
    (literal s ++ t).toList = '\'' :: (escapeChars s.toList ++ '\'' :: t.toList) := by
  simp [literal]

theorem readLiteral?_append (s t : String) : readLiteral? (literal s ++ t) = some (s, t) := by
  rw [readLiteral?, toList_literal_append]
  simp [readInside?_escapeChars]

theorem literal_injective : Function.Injective literal := by
  intro s s' same
  have one := readLiteral?_append s ""
  rw [same, readLiteral?_append] at one
  exact (congrArg Prod.fst (Option.some.inj one)).symm

/-! ### Lines with literals -/

/-- A line with a literal in it is one segment. Trimming takes nothing off the literal. -/
theorem lines_literal {β : Type} {before behind : String} (flatBefore : '\n' ∉ before.toList)
    (flatBehind : '\n' ∉ behind.toList) (s : String) :
    (Code.lines (before ++ literal s ++ behind) : List (Code.Segment β))
      = [.line (String.ofList (Text.trimFront before.toList) ++ literal s
          ++ String.ofList (Text.trimBack behind.toList))] := by
  have flat : '\n' ∉ (before ++ literal s ++ behind).toList := by
    simp only [String.toList_append, List.mem_append, not_or]
    exact ⟨⟨flatBefore, literal_flat s⟩, flatBehind⟩
  have first : (literal s).toList.head? = some '\'' := by simp [literal]
  have last : (literal s).toList.getLast? = some '\'' := by
    rw [literal, String.toList_ofList, List.getLast?_concat]
  have trimmed : Text.trim (before ++ literal s ++ behind)
      = String.ofList (Text.trimFront before.toList) ++ literal s ++ String.ofList (Text.trimBack behind.toList) :=
    Text.trim_around first last (by decide) (by decide)
  have some : Text.trim (before ++ literal s ++ behind) ≠ "" := by
    rw [trimmed]
    simp [literal]
  rw [Code.lines_flat flat, if_neg some, trimmed]

/-- Whatever text follows, the literal of a text is read as the text, and what follows is left. So no two texts have
    the same literal. A literal between texts without line feeds makes one segment with them when it is added to a
    buffer, and only the ends of those texts are trimmed. -/
theorem literal_read_back :
    (∀ s t, readLiteral? (literal s ++ t) = some (s, t)) ∧ Function.Injective literal ∧
      ∀ (session : Code.Session) (handle : Nat) (b : Code.BufferId) (before s behind : String),
        session.buffer handle = .ok b → '\n' ∉ before.toList → '\n' ∉ behind.toList →
          session.apply (.append handle (before ++ literal s ++ behind))
            = .ok (session.extend b [.line (String.ofList (Text.trimFront before.toList) ++ literal s
                ++ String.ofList (Text.trimBack behind.toList))]) := by
  refine ⟨readLiteral?_append, literal_injective, ?_⟩
  intro session handle b before s behind found flatBefore flatBehind
  rw [Code.Session.apply, found, lines_literal flatBefore flatBehind]
  rfl

/-- Markup with all that is escaped in it, blank at its ends. -/
def pictureMarkup : String :=
  "\n<img alt='\"$a\\\"'>\r\n "

theorem literal_read_back_pictureMarkup :
    literal pictureMarkup = "'\\n<img alt=\\'\"\\$a\\\\\"\\'>\\r\\n '" ∧
      readLiteral? (literal pictureMarkup ++ "; f('');") = some (pictureMarkup, "; f('');") ∧
      Code.Session.initial.apply (.append 0 ("\t e.html = " ++ literal pictureMarkup ++ "; \r"))
        = .ok (Code.Session.initial.extend ⟨0⟩ [.line ("e.html = " ++ literal pictureMarkup ++ ";")]) := by
  obtain ⟨reads, -, appends⟩ := literal_read_back
  have front : String.ofList (Text.trimFront "\t e.html = ".toList) = "e.html = " := by decide
  have back : String.ofList (Text.trimBack "; \r".toList) = ";" := by decide
  have added := appends .initial 0 ⟨0⟩ "\t e.html = " pictureMarkup "; \r" rfl (by decide) (by decide)
  rw [front, back] at added
  exact ⟨by decide, reads pictureMarkup "; f('');", added⟩

/-! ### Masking -/

namespace State

theorem run_escapeChar (c : Char) (rest : List Char) :
    (State.literal .single false).run ' ' (escapeChar c ++ rest)
      = List.replicate (byteSize (escapeChar c)) ' ' ++ (State.literal .single false).run ' ' rest := by
  rcases escapeChar_cases c with ⟨d, notFeed, hidden⟩ | ⟨plain, same⟩
  · have covered : cover d = List.replicate d.utf8Size ' ' := if_neg notFeed
    have opens : (State.literal .single false).run ' ' ('\\' :: d :: rest)
        = ' ' :: (cover d ++ (State.literal .single false).run ' ' rest) := by
      rw [run_cons, run_cons]
      rfl
    rw [hidden, List.cons_append, List.singleton_append, opens, covered]
    rw [Text.byteSize_cons, Text.byteSize_cons, Text.byteSize_nil, Nat.add_zero, Nat.add_comm]
    rfl
  · simp only [List.mem_cons, List.not_mem_nil, or_false, not_or] at plain
    obtain ⟨notEscape, notQuote, notFeed, -⟩ := plain
    rw [same, List.singleton_append, run_cons]
    simp [write, step, inside, Quote.char, cover, notEscape, notQuote, notFeed]

/-- The scanner covers the inside of a literal, byte for byte, and is still inside. -/
theorem run_escapeChars (cs rest : List Char) :
    (State.literal .single false).run ' ' (escapeChars cs ++ rest)
      = List.replicate (byteSize (escapeChars cs)) ' ' ++ (State.literal .single false).run ' ' rest := by
  induction cs with
  | nil => rfl
  | cons c cs ih =>
    have split : escapeChars (c :: cs) = escapeChar c ++ escapeChars cs := rfl
    rw [split, List.append_assoc, run_escapeChar, ih, Text.byteSize_append, ← List.append_assoc,
      List.replicate_append_replicate]

end State

/-- The opening quote of a literal is not taken for the first of three. -/
theorem not_triple_literal {cs ds : List Char} (apart : cs = [] → ds.head? ≠ some '\'') :
    Text.dropWord? ['\'', '\''] (escapeChars cs ++ '\'' :: ds) = none := by
  rw [Option.eq_none_iff_forall_ne_some]
  intro rest triple
  have quotes := Text.dropWord?_eq_some_iff.mp triple
  cases cs with
  | nil =>
    obtain ⟨-, tail⟩ := List.cons.inj quotes
    exact apart rfl (by rw [tail]; rfl)
  | cons c cs =>
    have split : escapeChars (c :: cs) = escapeChar c ++ escapeChars cs := rfl
    rw [split] at quotes
    rcases escapeChar_cases c with ⟨d, -, hidden⟩ | ⟨plain, same⟩
    · simp [hidden] at quotes
    · rw [same] at quotes
      obtain ⟨isQuote, -⟩ := List.cons.inj quotes
      exact plain (by simp [isQuote])

theorem run_literal_append {s t : String} (apart : s = "" → t.toList.head? ≠ some '\'') :
    State.code.run ' ' (literal s ++ t).toList
      = '\'' :: (List.replicate (byteSize (escapeChars s.toList)) ' ' ++ '\'' :: State.code.run ' ' t.toList) := by
  have single : Text.dropWord? [Quote.single.char, Quote.single.char] (escapeChars s.toList ++ '\'' :: t.toList) = none :=
    not_triple_literal fun empty => apart (by simpa using empty)
  have opens := State.run_quote .single (escapeChars s.toList ++ '\'' :: t.toList)
  have closes : (State.literal .single false).run ' ' ('\'' :: t.toList) = '\'' :: State.code.run ' ' t.toList := by
    rw [State.run_cons]
    rfl
  rw [State.run_opened single, State.run_escapeChars, closes] at opens
  rw [toList_literal_append]
  exact opens

/-- Masking a literal leaves its quotes, with a space between them for each byte, and what follows is masked as it is
    by itself. No brace in the text of a literal counts. Only an empty literal is not the end of itself, if a further
    quote follows. -/
theorem mask_literal_append {s t : String} (apart : ¬ (s = "" ∧ t.toList.head? = some '\'')) :
    mask (literal s ++ t)
        = "'" ++ String.ofList (List.replicate (byteSize (escapeChars s.toList)) ' ') ++ "'" ++ mask t ∧
      braceDelta (literal s ++ t) = braceDelta t := by
  have masked := run_literal_append fun empty quote => apart ⟨empty, quote⟩
  constructor
  · rw [mask_eq, masked, mask_eq]
    apply String.toList_inj.mp
    simp
  · rw [braceDelta_eq, braceDelta_eq, ← State.balance_eq, ← State.balance_eq, masked]
    simp [List.count_replicate]

/-- A literal with braces, quotes, a backslash and the beginning of a comment in it, next to further quotes. -/
theorem mask_literal_append_braces :
    mask (literal "\x7d'\\/* é\x7b" ++ "'' \x7d // \x7b") = "'           '" ++ "'' \x7d     " ∧
      braceDelta (literal "\x7d'\\/* é\x7b" ++ "'' \x7d // \x7b") = -1 := by
  have apart : ¬ ("\x7d'\\/* é\x7b" = "" ∧ "'' \x7d // \x7b".toList.head? = some '\'') := by decide
  obtain ⟨masked, braces⟩ := mask_literal_append apart
  rw [masked, braces]
  decide +kernel

end TemplateWeaver.Source
