import TemplateWeaver.Proofs.Text.Utf8
import TemplateWeaver.Source.Mask

/-!
Source text read character by character. The scanner looks up to three bytes ahead; a reader that
remembers the last one or two characters needs no look ahead, so what it makes of a text is what it
makes of a front part and then of the rest. `scan_encode` says that the scanner writes the bytes
of what the reader writes, and `mask_eq` that a masked text is what the reader writes.
-/
namespace TemplateWeaver.Source

open Text (encode byte encode_nil encode_cons encode_append)

/-! ### The reader -/

inductive Quote where
  | single
  | double
  deriving DecidableEq, Repr

def Quote.char : Quote → Char
  | .single => '\''
  | .double => '"'

/-- What the reader knows between two characters. -/
inductive State where
  | code
  /-- Behind a slash in code, which may begin a comment. -/
  | slash
  | lineComment
  | blockComment
  /-- Behind a star in a block comment. -/
  | star
  /-- Behind a quote in code, which may be the first of three. -/
  | opened (quote : Quote)
  /-- Behind two quotes in code: an empty literal, or the first two of three. -/
  | paired (quote : Quote)
  | literal (quote : Quote) (triple : Bool)
  /-- Behind a backslash in a literal. -/
  | escaped (quote : Quote) (triple : Bool)
  /-- Behind one quote, or `two`, in a literal that takes three to end. -/
  | closing (quote : Quote) (two : Bool)
  deriving DecidableEq, Repr

namespace State

/-- The state behind a character of code. -/
def start (c : Char) : State :=
  if c = '/' then .slash
  else if c = '\'' then .opened .single
  else if c = '"' then .opened .double
  else .code

/-- The state behind a character inside a literal with one quote. -/
def inside (quote : Quote) (c : Char) : State :=
  if c = '\\' then .escaped quote false
  else if c = quote.char ∨ c = '\n' then .code
  else .literal quote false

/-- The state behind a character inside a literal with three quotes. -/
def insideTriple (quote : Quote) (c : Char) : State :=
  if c = '\\' then .escaped quote true
  else if c = quote.char then .closing quote false
  else .literal quote true

def step : State → Char → State
  | .code, c => start c
  | .slash, c => if c = '/' then .lineComment else if c = '*' then .blockComment else start c
  | .lineComment, c => if c = '\n' then .code else .lineComment
  | .blockComment, c => if c = '*' then .star else .blockComment
  | .star, c => if c = '/' then .code else if c = '*' then .star else .blockComment
  | .opened quote, c => if c = quote.char then .paired quote else inside quote c
  | .paired quote, c => if c = quote.char then .literal quote true else start c
  | .literal quote false, c => inside quote c
  | .literal quote true, c => insideTriple quote c
  | .escaped quote triple, _ => .literal quote triple
  | .closing quote two, c =>
    if c = quote.char then if two then .code else .closing quote true else insideTriple quote c

/-- The state behind several characters. -/
def after (s : State) (cs : List Char) : State :=
  cs.foldl step s

@[simp]
theorem after_nil (s : State) : s.after [] = s :=
  rfl

@[simp]
theorem after_cons (s : State) (c : Char) (cs : List Char) : s.after (c :: cs) = (s.step c).after cs :=
  rfl

@[simp]
theorem after_append (s : State) (cs ds : List Char) : s.after (cs ++ ds) = (s.after cs).after ds :=
  List.foldl_append

/-! ### What the reader writes -/

/-- A masked character: line feeds stay, all else is spaces, one a byte. -/
def cover (c : Char) : List Char :=
  if c = '\n' then [c] else List.replicate c.utf8Size ' '

/-- A character of code stays; a slash waits for the next character. -/
def reveal (c : Char) : List Char :=
  if c = '/' then [] else [c]

/-- What is written when a character is read. A slash in code and quotes that may end a literal are
    written only once the reader knows what they are. -/
def write (fill : Char) : State → Char → List Char
  | .code, c => reveal c
  | .slash, c => if c = '/' then [fill, fill] else if c = '*' then [' ', ' '] else '/' :: reveal c
  | .lineComment, c => if c = '\n' then [c] else List.replicate c.utf8Size fill
  | .blockComment, c => cover c
  | .star, c => cover c
  | .opened quote, c => if c = quote.char then [c] else cover c
  | .paired quote, c => if c = quote.char then [c] else reveal c
  | .literal quote false, c => if c = quote.char then [c] else cover c
  | .literal quote true, c => if c = quote.char then [] else cover c
  | .escaped _ _, c => cover c
  | .closing quote two, c =>
    if c = quote.char then if two then [c, c, c] else []
    else (if two then [' ', ' '] else [' ']) ++ cover c

/-- What is still to be written when the text ends. -/
def flush : State → List Char
  | .slash => ['/']
  | .closing _ two => if two then [' ', ' '] else [' ']
  | _ => []

/-- What is written of several characters as they are read. -/
def output (fill : Char) : State → List Char → List Char
  | _, [] => []
  | s, c :: cs => s.write fill c ++ output fill (s.step c) cs

/-- What is written of a whole text. -/
def run (fill : Char) (s : State) (cs : List Char) : List Char :=
  s.output fill cs ++ (s.after cs).flush

theorem output_append (fill : Char) (s : State) (cs ds : List Char) :
    s.output fill (cs ++ ds) = s.output fill cs ++ (s.after cs).output fill ds := by
  induction cs generalizing s with
  | nil => rfl
  | cons c cs ih => simp [output, ih]

theorem run_cons (fill : Char) (s : State) (c : Char) (cs : List Char) :
    s.run fill (c :: cs) = s.write fill c ++ (s.step c).run fill cs := by
  simp [run, output]

/-- Text behind other text is written from where the reader stands, with what it still has to write. -/
theorem run_append_output (fill : Char) (s : State) (cs ds : List Char) :
    s.run fill (cs ++ ds) = s.output fill cs ++ (s.after cs).run fill ds := by
  rw [run, run, output_append, after_append, List.append_assoc]

/-- What stands behind a text that ends in code is read as if nothing stood before it. -/
theorem run_append {fill : Char} {s : State} {cs : List Char} (ends : s.after cs = .code) (ds : List Char) :
    s.run fill (cs ++ ds) = s.run fill cs ++ State.code.run fill ds := by
  simp [run, output_append, ends, flush]

end State

/-! ### The reader against the scanner -/

namespace State

/-- Where the scanner stands when it has yet to read what the reader remembers. -/
def mode : State → Mode
  | .lineComment => .lineComment
  | .blockComment | .star => .blockComment
  | .literal quote triple | .escaped quote triple => .literal (byte quote.char) triple
  | .closing quote _ => .literal (byte quote.char) true
  | _ => .code

/-- What the reader has read and the scanner has not. -/
def ahead : State → List Char
  | .slash => ['/']
  | .star => ['*']
  | .opened quote => [quote.char]
  | .paired quote => [quote.char, quote.char]
  | .escaped _ _ => ['\\']
  | .closing quote two => if two then [quote.char, quote.char] else [quote.char]
  | _ => []

/-- What the reader has written and the scanner has not. -/
def written : State → List Char
  | .star | .escaped _ _ => [' ']
  | .opened quote => [quote.char]
  | .paired quote => [quote.char, quote.char]
  | _ => []

end State

section Bytes
attribute [local simp] scan
variable {fill : UInt8} {b : UInt8} {bs : List UInt8}

theorem scan_code_cons (noSlash : b ≠ slash) (noQuote : isQuote b = false) (rest : List UInt8) :
    scan fill .code (b :: rest) = b :: scan fill .code rest := by
  rcases rest with _ | ⟨c, _ | ⟨d, rest⟩⟩ <;> simp [noSlash, noQuote]

theorem scan_code_append (plain : ∀ b ∈ bs, b ≠ slash ∧ isQuote b = false) (rest : List UInt8) :
    scan fill .code (bs ++ rest) = bs ++ scan fill .code rest := by
  induction bs with
  | nil => rfl
  | cons b bs ih =>
    obtain ⟨noSlash, noQuote⟩ := plain b (by simp)
    rw [List.cons_append, scan_code_cons noSlash noQuote, ih fun d member => plain d (by simp [member])]
    rfl

theorem scan_lineComment_append (plain : ∀ b ∈ bs, b ≠ lineFeed) (rest : List UInt8) :
    scan fill .lineComment (bs ++ rest) = List.replicate bs.length fill ++ scan fill .lineComment rest := by
  induction bs with
  | nil => rfl
  | cons b bs ih =>
    simp [plain b, ih fun d member => plain d (by simp [member]), List.replicate_succ]

theorem scan_blockComment_cons (noStar : b ≠ star) (rest : List UInt8) :
    scan fill .blockComment (b :: rest) = blank b :: scan fill .blockComment rest := by
  cases rest <;> simp [noStar]

theorem scan_blockComment_append (plain : ∀ b ∈ bs, b ≠ star ∧ b ≠ lineFeed) (rest : List UInt8) :
    scan fill .blockComment (bs ++ rest) = List.replicate bs.length space ++ scan fill .blockComment rest := by
  induction bs with
  | nil => rfl
  | cons b bs ih =>
    obtain ⟨noStar, noFeed⟩ := plain b (by simp)
    rw [List.cons_append, scan_blockComment_cons noStar, ih fun d member => plain d (by simp [member])]
    simp [blank, overwritten, noFeed, List.replicate_succ]

theorem scan_literal_cons {quote : UInt8} (triple : Bool) (noEscape : b ≠ backslash) (noQuote : b ≠ quote)
    (noFeed : b ≠ lineFeed) (rest : List UInt8) :
    scan fill (.literal quote triple) (b :: rest) = space :: scan fill (.literal quote triple) rest := by
  cases triple <;> rw [scan.eq_def] <;> simp [noEscape, noQuote, noFeed, blank, overwritten]

theorem scan_literal_backslash (quote : UInt8) (triple : Bool) (b : UInt8) (rest : List UInt8) :
    scan fill (.literal quote triple) (backslash :: b :: rest)
      = space :: blank b :: scan fill (.literal quote triple) rest := by
  cases triple <;> rw [scan.eq_def] <;> simp

theorem scan_literal_append {quote : UInt8} (triple : Bool)
    (plain : ∀ b ∈ bs, b ≠ backslash ∧ b ≠ quote ∧ b ≠ lineFeed) (rest : List UInt8) :
    scan fill (.literal quote triple) (bs ++ rest)
      = List.replicate bs.length space ++ scan fill (.literal quote triple) rest := by
  induction bs with
  | nil => rfl
  | cons b bs ih =>
    obtain ⟨noEscape, noQuote, noFeed⟩ := plain b (by simp)
    rw [List.cons_append, scan_literal_cons triple noEscape noQuote noFeed,
      ih fun d member => plain d (by simp [member])]
    rfl

end Bytes

namespace State

theorem encode_replicate {a : Char} (ascii : a.toNat < 0x80) (n : Nat) :
    encode (List.replicate n a) = List.replicate n (byte a) := by
  induction n with
  | zero => rfl
  | succ n ih => simp [List.replicate_succ, ih, Text.utf8EncodeChar_of_lt ascii]

@[simp] theorem encode_slash : String.utf8EncodeChar '/' = [Source.slash] := rfl
@[simp] theorem encode_star : String.utf8EncodeChar '*' = [Source.star] := rfl
@[simp] theorem encode_backslash : String.utf8EncodeChar '\\' = [backslash] := rfl
@[simp] theorem encode_lineFeed : String.utf8EncodeChar '\n' = [lineFeed] := rfl
@[simp] theorem encode_space : String.utf8EncodeChar ' ' = [space] := rfl
@[simp] theorem encode_quote (quote : Quote) : String.utf8EncodeChar quote.char = [byte quote.char] := by
  cases quote <;> rfl

@[simp] theorem isQuote_quote (quote : Quote) : isQuote (byte quote.char) = true := by
  cases quote <;> rfl

variable {fill : Char} {c : Char} {rest out : List UInt8}

theorem encode_cover (other : c ≠ '\n') : encode (cover c) = List.replicate (String.utf8EncodeChar c).length space := by
  rw [cover, if_neg other, encode_replicate (by decide), String.length_utf8EncodeChar]
  rfl

theorem scan_start
    (tail : scan (byte fill) (start c).mode (encode (start c).ahead ++ rest) = encode (start c).written ++ out) :
    scan (byte fill) .code (String.utf8EncodeChar c ++ rest) = encode (reveal c) ++ out := by
  by_cases isSlash : c = '/'
  · subst isSlash
    simpa [start, reveal, mode, ahead, written] using tail
  by_cases isSingle : c = '\''
  · subst isSingle
    simpa [start, reveal, mode, ahead, written, Quote.char] using tail
  by_cases isDouble : c = '"'
  · subst isDouble
    simpa [start, reveal, mode, ahead, written, Quote.char] using tail
  have plain : ∀ b ∈ String.utf8EncodeChar c, b ≠ Source.slash ∧ isQuote b = false := by
    intro b member
    refine ⟨Text.ne_byte (a := '/') (by decide) isSlash member, ?_⟩
    have noSingle := Text.ne_byte (a := '\'') (by decide) isSingle member
    have noDouble := Text.ne_byte (a := '"') (by decide) isDouble member
    simpa [isQuote] using ⟨noSingle, noDouble⟩
  have code : scan (byte fill) .code rest = out := by
    simpa [start, isSlash, isSingle, isDouble, mode, ahead, written] using tail
  rw [scan_code_append plain, code]
  simp [reveal, isSlash]

@[simp] theorem quote_ne_backslash (quote : Quote) : quote.char ≠ '\\' ∧ byte quote.char ≠ backslash := by
  cases quote <;> decide

@[simp] theorem quote_ne_lineFeed (quote : Quote) : quote.char ≠ '\n' ∧ byte quote.char ≠ lineFeed := by
  cases quote <;> decide

theorem ascii_quote (quote : Quote) : quote.char.toNat < 0x80 := by
  cases quote <;> decide

theorem plain_inside {quote : Quote} (noEscape : c ≠ '\\') (noQuote : c ≠ quote.char) (noFeed : c ≠ '\n') :
    ∀ b ∈ String.utf8EncodeChar c, b ≠ backslash ∧ b ≠ byte quote.char ∧ b ≠ lineFeed := by
  intro b member
  exact ⟨Text.ne_byte (a := '\\') (by decide) noEscape member, Text.ne_byte (ascii_quote quote) noQuote member,
    Text.ne_byte (a := '\n') (by decide) noFeed member⟩

theorem scan_inside {quote : Quote}
    (tail : scan (byte fill) (inside quote c).mode (encode (inside quote c).ahead ++ rest)
      = encode (inside quote c).written ++ out) :
    scan (byte fill) (.literal (byte quote.char) false) (String.utf8EncodeChar c ++ rest)
      = encode (if c = quote.char then [c] else cover c) ++ out := by
  by_cases isEscape : c = '\\'
  · subst isEscape
    simpa [inside, mode, ahead, written, (quote_ne_backslash quote).1.symm,
      show cover '\\' = [' '] from rfl] using tail
  by_cases isQuote : c = quote.char
  · subst isQuote
    have code : scan (byte fill) .code rest = out := by
      simpa [inside, isEscape, mode, ahead, written] using tail
    rw [encode_quote, List.singleton_append, scan.eq_def]
    simp [(quote_ne_backslash quote).2, code]
  by_cases isFeed : c = '\n'
  · subst isFeed
    have code : scan (byte fill) .code rest = out := by
      simpa [inside, mode, ahead, written] using tail
    rw [encode_lineFeed, List.singleton_append, scan.eq_def]
    simp [show lineFeed ≠ backslash by decide, code, isQuote, cover]
  have literal : scan (byte fill) (.literal (byte quote.char) false) rest = out := by
    simpa [inside, isEscape, isQuote, isFeed, mode, ahead, written] using tail
  rw [scan_literal_append false (plain_inside isEscape isQuote isFeed), literal, if_neg isQuote, encode_cover isFeed]

theorem scan_insideTriple {quote : Quote}
    (tail : scan (byte fill) (insideTriple quote c).mode (encode (insideTriple quote c).ahead ++ rest)
      = encode (insideTriple quote c).written ++ out) :
    scan (byte fill) (.literal (byte quote.char) true) (String.utf8EncodeChar c ++ rest)
      = encode (if c = quote.char then [] else cover c) ++ out := by
  by_cases isEscape : c = '\\'
  · subst isEscape
    simpa [insideTriple, mode, ahead, written, (quote_ne_backslash quote).1.symm,
      show cover '\\' = [' '] from rfl] using tail
  by_cases isQuote : c = quote.char
  · subst isQuote
    simpa [insideTriple, isEscape, mode, ahead, written] using tail
  have literal : scan (byte fill) (.literal (byte quote.char) true) rest = out := by
    simpa [insideTriple, isEscape, isQuote, mode, ahead, written] using tail
  by_cases isFeed : c = '\n'
  · subst isFeed
    rw [encode_lineFeed, List.singleton_append, scan.eq_def]
    simp [show lineFeed ≠ backslash by decide, (quote_ne_lineFeed quote).2.symm, blank, overwritten, literal, isQuote,
      cover]
  rw [scan_literal_append true (plain_inside isEscape isQuote isFeed), literal, if_neg isQuote, encode_cover isFeed]

theorem exists_first_byte (c : Char) : ∃ d ds, String.utf8EncodeChar c = d :: ds ∧ d ∈ String.utf8EncodeChar c := by
  rcases split : String.utf8EncodeChar c with _ | ⟨d, ds⟩
  · exact absurd split String.utf8EncodeChar_ne_nil
  · exact ⟨d, ds, rfl, by simp⟩

theorem scan_slash (noSlash : c ≠ '/') (noStar : c ≠ '*') {fill : UInt8} (rest : List UInt8) :
    scan fill .code (Source.slash :: (String.utf8EncodeChar c ++ rest))
      = Source.slash :: scan fill .code (String.utf8EncodeChar c ++ rest) := by
  obtain ⟨d, ds, split, member⟩ := exists_first_byte c
  have otherSlash : d ≠ Source.slash := Text.ne_byte (a := '/') (by decide) noSlash member
  have otherStar : d ≠ Source.star := Text.ne_byte (a := '*') (by decide) noStar member
  rw [split]
  rcases shape : ds ++ rest with _ | ⟨e, es⟩ <;>
    simp [shape, scan.eq_def fill .code (Source.slash :: _), otherSlash, otherStar,
      show isQuote Source.slash = false from rfl]

theorem scan_opened {quote : Quote} {fill : UInt8} (other : c ≠ quote.char) (rest : List UInt8) :
    scan fill .code (byte quote.char :: (String.utf8EncodeChar c ++ rest))
      = byte quote.char :: scan fill (.literal (byte quote.char) false) (String.utf8EncodeChar c ++ rest) := by
  obtain ⟨d, ds, split, member⟩ := exists_first_byte c
  have otherByte : d ≠ byte quote.char := Text.ne_byte (ascii_quote quote) other member
  have noSlash : byte quote.char ≠ Source.slash := by cases quote <;> decide
  rw [split]
  rcases shape : ds ++ rest with _ | ⟨e, es⟩ <;>
    simp [shape, scan.eq_def fill .code (byte quote.char :: _), otherByte, noSlash]

theorem scan_paired {quote : Quote} {fill : UInt8} (other : c ≠ quote.char) (rest : List UInt8) :
    scan fill .code (byte quote.char :: byte quote.char :: (String.utf8EncodeChar c ++ rest))
      = byte quote.char :: byte quote.char :: scan fill .code (String.utf8EncodeChar c ++ rest) := by
  obtain ⟨d, ds, split, member⟩ := exists_first_byte c
  have otherByte : d ≠ byte quote.char := Text.ne_byte (ascii_quote quote) other member
  have noSlash : byte quote.char ≠ Source.slash := by cases quote <;> decide
  rw [split, List.cons_append, scan.eq_def]
  simp only [noSlash, false_and, ↓reduceIte, isQuote_quote, otherByte, and_false]
  rw [scan.eq_def]
  simp [(quote_ne_backslash quote).2]

theorem scan_closing {quote : Quote} {fill : UInt8} (other : c ≠ quote.char) (rest : List UInt8) :
    scan fill (.literal (byte quote.char) true) (byte quote.char :: (String.utf8EncodeChar c ++ rest))
      = space :: scan fill (.literal (byte quote.char) true) (String.utf8EncodeChar c ++ rest) := by
  obtain ⟨d, ds, split, member⟩ := exists_first_byte c
  have otherByte : d ≠ byte quote.char := Text.ne_byte (ascii_quote quote) other member
  rw [split]
  rcases shape : ds ++ rest with _ | ⟨e, es⟩ <;>
    simp [shape, scan.eq_def fill (.literal _ _) (byte quote.char :: _), (quote_ne_backslash quote).2, otherByte]

theorem scan_closing_two {quote : Quote} {fill : UInt8} (other : c ≠ quote.char) (rest : List UInt8) :
    scan fill (.literal (byte quote.char) true) (byte quote.char :: byte quote.char :: (String.utf8EncodeChar c ++ rest))
      = space :: space :: scan fill (.literal (byte quote.char) true) (String.utf8EncodeChar c ++ rest) := by
  rw [← scan_closing other]
  obtain ⟨d, ds, split, member⟩ := exists_first_byte c
  have otherByte : d ≠ byte quote.char := Text.ne_byte (ascii_quote quote) other member
  rw [split, List.cons_append, scan.eq_def]
  simp [(quote_ne_backslash quote).2, otherByte]

theorem scan_star (noSlash : c ≠ '/') {fill : UInt8} (rest : List UInt8) :
    scan fill .blockComment (Source.star :: (String.utf8EncodeChar c ++ rest))
      = space :: scan fill .blockComment (String.utf8EncodeChar c ++ rest) := by
  obtain ⟨d, ds, split, member⟩ := exists_first_byte c
  have otherByte : d ≠ Source.slash := Text.ne_byte (a := '/') (by decide) noSlash member
  rw [split, List.cons_append, scan, if_neg (by simp [otherByte])]
  rfl

theorem scan_line (ascii : fill.toNat < 0x80) (noFeed : c ≠ '\n') (tail : scan (byte fill) .lineComment rest = out) :
    scan (byte fill) .lineComment (String.utf8EncodeChar c ++ rest)
      = encode (List.replicate c.utf8Size fill) ++ out := by
  have plain : ∀ b ∈ String.utf8EncodeChar c, b ≠ lineFeed :=
    fun b member => Text.ne_byte (a := '\n') (by decide) noFeed member
  rw [scan_lineComment_append plain, tail, encode_replicate ascii, String.length_utf8EncodeChar]

theorem scan_block (noStar : c ≠ '*') {fill : UInt8} (tail : scan fill .blockComment rest = out) :
    scan fill .blockComment (String.utf8EncodeChar c ++ rest) = encode (cover c) ++ out := by
  by_cases isFeed : c = '\n'
  · subst isFeed
    rw [encode_lineFeed, List.singleton_append, scan_blockComment_cons (by decide), tail]
    rfl
  have plain : ∀ b ∈ String.utf8EncodeChar c, b ≠ Source.star ∧ b ≠ lineFeed := by
    intro b member
    exact ⟨Text.ne_byte (a := '*') (by decide) noStar member, Text.ne_byte (a := '\n') (by decide) isFeed member⟩
  rw [scan_blockComment_append plain, tail, encode_cover isFeed]

theorem scan_escaped {quote : Quote} {triple : Bool} {fill : UInt8}
    (tail : scan fill (.literal (byte quote.char) triple) rest = out) :
    scan fill (.literal (byte quote.char) triple) (backslash :: (String.utf8EncodeChar c ++ rest))
      = space :: (encode (cover c) ++ out) := by
  by_cases small : c.toNat < 0x80
  · rw [Text.utf8EncodeChar_of_lt small, List.singleton_append, scan_literal_backslash, tail]
    by_cases isFeed : c = '\n'
    · subst isFeed
      rfl
    · have noFeed : byte c ≠ lineFeed :=
        Text.ne_byte (a := '\n') (by decide) isFeed (by simp [Text.utf8EncodeChar_of_lt small])
      rw [encode_cover isFeed, Text.utf8EncodeChar_of_lt small, blank, overwritten, if_neg noFeed]
      rfl
  · have wide : ∀ a : Char, a.toNat < 0x80 → c ≠ a := by
      intro a ascii same
      rw [same] at small
      exact small ascii
    have plain := plain_inside (wide _ (by decide)) (wide _ (ascii_quote quote)) (wide _ (by decide))
    obtain ⟨d, ds, split, member⟩ := exists_first_byte c
    rw [encode_cover (wide _ (by decide)), split, List.cons_append, scan_literal_backslash,
      scan_literal_append triple (fun b inside => plain b (by simp [split, inside])), tail, blank, overwritten,
      if_neg (plain d member).2.2]
    rfl

/-- The scanner on a character is the reader on it, whatever follows. -/
theorem scan_step (ascii : fill.toNat < 0x80) (s : State)
    (tail : scan (byte fill) (s.step c).mode (encode (s.step c).ahead ++ rest)
      = encode (s.step c).written ++ out) :
    scan (byte fill) s.mode (encode s.ahead ++ (String.utf8EncodeChar c ++ rest))
      = encode s.written ++ (encode (s.write fill c) ++ out) := by
  cases s with
  | code => exact scan_start tail
  | slash =>
    by_cases isSlash : c = '/'
    · subst isSlash
      cases rest <;>
        simpa [step, mode, ahead, written, write, scan, Text.utf8EncodeChar_of_lt ascii] using tail
    by_cases isStar : c = '*'
    · subst isStar
      cases rest <;>
        simpa [step, mode, ahead, written, write, scan, show Source.star ≠ Source.slash by decide] using tail
    · simp only [step, isSlash, isStar, ↓reduceIte] at tail
      simp [mode, ahead, written, write, isSlash, isStar, scan_slash isSlash isStar, scan_start tail]
  | lineComment =>
    by_cases isFeed : c = '\n'
    · subst isFeed
      simpa [step, mode, ahead, written, write, scan] using tail
    · have next : scan (byte fill) .lineComment rest = out := by
        simpa [step, isFeed, mode, ahead, written] using tail
      simp [mode, ahead, written, write, isFeed, scan_line ascii isFeed next]
  | blockComment =>
    by_cases isStar : c = '*'
    · subst isStar
      simpa [step, mode, ahead, written, write, show cover '*' = [' '] from rfl] using tail
    · have next : scan (byte fill) .blockComment rest = out := by
        simpa [step, isStar, mode, ahead, written] using tail
      exact scan_block isStar next
  | star =>
    by_cases isSlash : c = '/'
    · subst isSlash
      simpa [step, mode, ahead, written, write, scan, show cover '/' = [' '] from rfl] using tail
    by_cases isStar : c = '*'
    · subst isStar
      have next : scan (byte fill) .blockComment (Source.star :: rest) = space :: out := by
        simpa [step, mode, ahead, written] using tail
      simp [mode, ahead, written, write, scan, show Source.star ≠ Source.slash by decide, next,
        show cover '*' = [' '] from rfl, show blank Source.star = space from rfl]
    · have next : scan (byte fill) .blockComment rest = out := by
        simpa [step, isSlash, isStar, mode, ahead, written] using tail
      simp [mode, ahead, written, write, scan_star isSlash, scan_block isStar next]
  | opened quote =>
    by_cases isQuote : c = quote.char
    · subst isQuote
      simpa [step, mode, ahead, written, write] using tail
    · simp only [step, isQuote, ↓reduceIte] at tail
      have next := scan_inside tail
      simp only [isQuote, ↓reduceIte] at next
      simp [mode, ahead, written, write, isQuote, scan_opened isQuote, next]
  | paired quote =>
    by_cases isQuote : c = quote.char
    · subst isQuote
      have next : scan (byte fill) (.literal (byte quote.char) true) rest = out := by
        simpa [step, mode, ahead, written] using tail
      have noSlash : byte quote.char ≠ Source.slash := by cases quote <;> decide
      simp [mode, ahead, written, write, scan, noSlash, next]
    · simp only [step, isQuote, ↓reduceIte] at tail
      simp [mode, ahead, written, write, isQuote, scan_paired isQuote, scan_start tail]
  | literal quote triple =>
    cases triple
    · exact scan_inside tail
    · exact scan_insideTriple tail
  | escaped quote triple =>
    have next : scan (byte fill) (.literal (byte quote.char) triple) rest = out := by
      simpa [step, mode, ahead, written] using tail
    simp [mode, ahead, written, write, scan_escaped next]
  | closing quote two =>
    by_cases isQuote : c = quote.char
    · subst isQuote
      cases two
      · simpa [step, mode, ahead, written, write] using tail
      · have next : scan (byte fill) .code rest = out := by
          simpa [step, mode, ahead, written] using tail
        simp [mode, ahead, written, write, scan, (quote_ne_backslash quote).2, next]
    · simp only [step, isQuote, ↓reduceIte] at tail
      have next := scan_insideTriple tail
      simp only [isQuote, ↓reduceIte] at next
      cases two <;> simp [mode, ahead, written, write, isQuote, scan_closing isQuote, scan_closing_two isQuote, next]

/-- The scanner at the end of a text writes what the reader still has to write. -/
theorem scan_ahead (fill : UInt8) (s : State) :
    scan fill s.mode (encode s.ahead) = encode s.written ++ encode s.flush := by
  cases s with
  | code | slash | lineComment | blockComment | opened => simp [mode, ahead, written, flush, scan]
  | star => rfl
  | paired quote =>
    have noSlash : byte quote.char ≠ Source.slash := by cases quote <;> decide
    simp [mode, ahead, written, flush, scan, noSlash, (quote_ne_backslash quote).2]
  | literal quote triple => simp [mode, ahead, written, flush, scan]
  | escaped quote triple => cases triple <;> simp [mode, ahead, written, flush, scan]
  | closing quote two =>
    cases two <;> simp [mode, ahead, written, flush, scan, (quote_ne_backslash quote).2]

/-- The scanner writes the bytes of what the reader writes. -/
theorem scan_encode (ascii : fill.toNat < 0x80) (s : State) (cs : List Char) :
    scan (byte fill) s.mode (encode s.ahead ++ encode cs) = encode s.written ++ encode (s.run fill cs) := by
  induction cs generalizing s with
  | nil =>
    have ends := scan_ahead (byte fill) s
    simpa [run, output] using ends
  | cons c cs ih =>
    rw [encode_cons, run_cons, encode_append]
    exact scan_step ascii s (ih (s.step c))

end State

theorem maskBytes_bytes (code : String) :
    maskBytes (Text.bytes code) = encode (State.code.run ' ' code.toList) := by
  rw [Text.bytes_eq]
  exact State.scan_encode (show ' '.toNat < 0x80 by decide) .code code.toList

/-- A masked text is what the reader writes of the text. -/
theorem mask_eq (code : String) : mask code = String.ofList (State.code.run ' ' code.toList) := by
  rw [mask, maskBytes_bytes, Text.ofBytes_encode]

/-- Behind a text that ends in code, masking begins anew. -/
theorem mask_append {front : String} (ends : State.code.after front.toList = .code) (back : String) :
    mask (front ++ back) = mask front ++ mask back := by
  rw [mask_eq, mask_eq, mask_eq, String.toList_append, State.run_append ends, String.ofList_append]

end TemplateWeaver.Source
