import TemplateWeaver.Proofs.Source.Reader

/-!
Masking in place. A sweep goes over the bytes of a text with an index and overwrites a copy of them, one
comment, literal or byte of code a round. A round fails if it reads or overwrites beyond the bytes, or cuts
the text inside a character. `Swept.round?` says that none does and that each moves the index on, so a sweep
comes to its end in as many rounds as there are bytes, with what the scanner writes (`Swept.run?`). What a
round passes is scanned alike before other bytes too, if they begin with the same one or there are none
(`Span`).
-/
namespace TemplateWeaver.Source

open Text (bytes)

/-! ### The sweep -/

/-- The bytes of a text from an offset on, if the offset lies between two characters. -/
def tail? (code : String) (i : Nat) : Option (List UInt8) :=
  if (⟨i⟩ : String.Pos.Raw).isValid code then some ((bytes code).drop i) else none

/-- The bytes with those from `i` up to `j` overwritten, if there are so many. -/
def overwrite? (fill : UInt8) (i j : Nat) (out : List UInt8) : Option (List UInt8) :=
  if i ≤ j ∧ j ≤ out.length then
    some (out.take i ++ (((out.take j).drop i).map (overwritten fill) ++ out.drop j))
  else none

/-- Where the end of a block comment first stands. -/
def blockEnd? : List UInt8 → Option Nat
  | [] => none
  | b :: rest => if b = star ∧ rest.head? = some slash then some 0 else (blockEnd? rest).map (· + 1)

/-- How many quotes open and close a literal. -/
def quoteCount (triple : Bool) : Nat :=
  if triple then 3 else 1

/-- Whether a literal is closed by what stands at `j`. -/
def closesAt (bs : List UInt8) (quote : UInt8) (triple : Bool) (j : Nat) : Bool :=
  bs[j]? == some quote && (!triple || bs[j + 1]? == some quote && bs[j + 2]? == some quote)

/-- Where the inside of a literal ends that is read from `j` on. A backslash at the very end leads past the
    bytes. -/
def literalEnd (bs : List UInt8) (quote : UInt8) (triple : Bool) (j : Nat) : Nat :=
  if h : j < bs.length then
    if closesAt bs quote triple j || !triple && bs[j] == lineFeed then j
    else if bs[j] = backslash then literalEnd bs quote triple (j + 2)
    else literalEnd bs quote triple (j + 1)
  else j
termination_by bs.length - j

structure Sweep where
  index : Nat
  out : List UInt8
  deriving DecidableEq, Repr

namespace Sweep

/-- A round over a comment from `i` up to `stop`. -/
def comment? (fill : UInt8) (i stop : Nat) (out : List UInt8) : Option Sweep :=
  (overwrite? fill i stop out).map (mk stop)

/-- A round over the literal that a quote at `i` opens. A line feed that ends it is left for the next round. -/
def literal? (bs : List UInt8) (quote : UInt8) (i : Nat) (out : List UInt8) : Option Sweep :=
  let triple := bs[i + 1]? == some quote && bs[i + 2]? == some quote
  let start := i + quoteCount triple
  let stop := min (literalEnd bs quote triple start) bs.length
  (overwrite? space (min start stop) stop out).bind fun out =>
    if stop = bs.length then some ⟨stop, out⟩
    else bs[stop]?.map fun b => ⟨if b = lineFeed then stop else stop + quoteCount triple, out⟩

/-- One round, at a byte of the text. -/
def round? (fill : UInt8) (code : String) (s : Sweep) : Option Sweep :=
  let bs := bytes code
  let i := s.index
  bs[i]?.bind fun b =>
    if b = slash ∧ bs[i + 1]? = some slash then
      (tail? code i).bind fun tail =>
        comment? fill i ((tail.findIdx? (· == lineFeed)).elim bs.length (i + ·)) s.out
    else if b = slash ∧ bs[i + 1]? = some star then
      (tail? code (i + 2)).bind fun tail =>
        comment? space i ((blockEnd? tail).elim bs.length (i + 2 + · + 2)) s.out
    else if isQuote b then literal? bs b i s.out
    else some ⟨i + 1, s.out⟩

/-- What is written when the index has passed all bytes, if so many rounds lead there. -/
def run? (fill : UInt8) (code : String) : Nat → Sweep → Option (List UInt8)
  | 0, s => if s.index < (bytes code).length then none else some s.out
  | rounds + 1, s =>
    if s.index < (bytes code).length then (s.round? fill code).bind (run? fill code rounds) else some s.out

end Sweep

/-! ### Ranges -/

theorem overwrite?_append (fill : UInt8) (front range back : List UInt8) :
    overwrite? fill front.length (front.length + range.length) (front ++ (range ++ back))
      = some (front ++ (range.map (overwritten fill) ++ back)) := by
  have taken : (front ++ (range ++ back)).take (front.length + range.length) = front ++ range := by
    rw [← List.append_assoc, ← List.length_append, List.take_left]
  have dropped : (front ++ (range ++ back)).drop (front.length + range.length) = back := by
    rw [← List.append_assoc, ← List.length_append, List.drop_left]
  rw [overwrite?, if_pos (by simp), taken, dropped, List.take_left, List.drop_left]

theorem tail?_of_isValid {code : String} {front back : List UInt8} (split : bytes code = front ++ back)
    (valid : (⟨front.length⟩ : String.Pos.Raw).IsValid code) : tail? code front.length = some back := by
  rw [tail?, if_pos (String.Pos.Raw.isValid_eq_true_iff.mpr valid), split, List.drop_left]

/-! ### What follows a span -/

/-- Bytes to follow a span of the text in the place of others: none at all, or some that begin alike. The
    scanner looks no further beyond a span than at one byte. -/
def Replaces (more rest : List UInt8) : Prop :=
  more = [] ∨ more.head? = rest.head?

namespace Replaces

variable {more rest : List UInt8} {b : UInt8}

theorem refl (rest : List UInt8) : Replaces rest rest :=
  .inr rfl

theorem nil (rest : List UInt8) : Replaces [] rest :=
  .inl rfl

theorem eq_nil (replaces : Replaces more []) : more = [] := by
  rcases replaces with none | none
  · exact none
  · exact List.head?_eq_none_iff.mp none

theorem append {span : List UInt8} (nonempty : span ≠ []) : Replaces (span ++ more) (span ++ rest) := by
  obtain ⟨b, span, rfl⟩ := List.exists_cons_of_ne_nil nonempty
  exact .inr rfl

/-- What is read in a span, or right behind it, is also read with other bytes behind it. -/
theorem getElem? (replaces : Replaces more rest) {part : List UInt8} {k : Nat} (near : k ≤ part.length)
    (found : (part ++ more)[k]? = some b) : (part ++ rest)[k]? = some b := by
  rcases Nat.lt_or_eq_of_le near with inside | rfl
  · rw [List.getElem?_append_left inside] at found ⊢
    exact found
  · rw [List.getElem?_append_right (Nat.le_refl _), Nat.sub_self, ← List.head?_eq_getElem?] at found ⊢
    rcases replaces with rfl | same
    · cases found
    · rw [← same, found]

theorem head? (part : List UInt8) (replaces : Replaces more rest) (found : (part ++ more).head? = some b) :
    (part ++ rest).head? = some b := by
  rw [List.head?_eq_getElem?] at found ⊢
  exact replaces.getElem? (Nat.zero_le _) found

end Replaces

/-! ### Code and comments -/

section Spans
variable {fill : UInt8}

theorem scan_code_single {b : UInt8} {bs : List UInt8} (noLine : ¬(b = slash ∧ bs.head? = some slash))
    (noBlock : ¬(b = slash ∧ bs.head? = some star)) (noQuote : isQuote b = false) :
    scan fill .code (b :: bs) = b :: scan fill .code bs := by
  cases bs with
  | nil => simp [scan]
  | cons c bs =>
    rw [List.head?_cons, Option.some.injEq] at noLine noBlock
    rw [scan.eq_def]
    simp [noLine, noBlock, noQuote]

theorem scan_code_lineComment (bs : List UInt8) :
    scan fill .code (slash :: slash :: bs) = fill :: fill :: scan fill .lineComment bs := by
  cases bs <;> simp [scan]

theorem scan_code_blockComment (bs : List UInt8) :
    scan fill .code (slash :: star :: bs) = space :: space :: scan fill .blockComment bs := by
  cases bs <;> simp [scan, show star ≠ slash by decide]

/-- A line comment runs up to the next line feed. -/
theorem scan_lineComment_split (fill : UInt8) (bs : List UInt8) :
    ∃ inside rest, bs = inside ++ rest ∧ (bs.findIdx? (· == lineFeed)).elim bs.length id = inside.length
      ∧ ∀ more, Replaces more rest →
        scan fill .lineComment (inside ++ more) = inside.map (overwritten fill) ++ scan fill .code more := by
  induction bs with
  | nil =>
    refine ⟨[], [], rfl, rfl, ?_⟩
    intro more replaces
    rw [replaces.eq_nil]
    rfl
  | cons b bs ih =>
    by_cases feed : b = lineFeed
    · subst feed
      refine ⟨[], lineFeed :: bs, rfl, by simp [List.findIdx?_cons], ?_⟩
      rintro more (rfl | same)
      · rfl
      · obtain ⟨more, rfl⟩ := List.head?_eq_some_iff.mp same
        rw [scan_code_cons (by decide) (by decide)]
        simp [scan]
    · obtain ⟨inside, rest, rfl, stop, scanned⟩ := ih
      refine ⟨b :: inside, rest, rfl, ?_, ?_⟩
      · rw [List.findIdx?_cons, if_neg (by simpa using feed), List.length_cons, List.length_cons, ← stop]
        cases (inside ++ rest).findIdx? (· == lineFeed) <;> rfl
      · intro more replaces
        rw [List.map_cons, List.cons_append, List.cons_append, ← scanned more replaces, overwritten, if_neg feed]
        simp [scan, feed]

theorem scan_blockComment_inside {b : UInt8} {bs : List UInt8} (goesOn : ¬(b = star ∧ bs.head? = some slash)) :
    scan fill .blockComment (b :: bs) = blank b :: scan fill .blockComment bs := by
  cases bs with
  | nil => simp [scan]
  | cons c bs =>
    have open_ : ¬(b = star ∧ c = slash) := by simpa using goesOn
    rw [scan, if_neg open_]

/-- A block comment runs up to its end mark and over it. -/
theorem scan_blockComment_split (fill : UInt8) (bs : List UInt8) :
    ∃ inside rest, bs = inside ++ rest ∧ (blockEnd? bs).elim bs.length (· + 2) = inside.length
      ∧ ∀ more, Replaces more rest →
        scan fill .blockComment (inside ++ more) = inside.map (overwritten space) ++ scan fill .code more := by
  induction bs with
  | nil =>
    refine ⟨[], [], rfl, rfl, ?_⟩
    intro more replaces
    rw [replaces.eq_nil]
    rfl
  | cons b bs ih =>
    by_cases ends : b = star ∧ bs.head? = some slash
    · obtain ⟨rfl, next⟩ := ends
      obtain ⟨rest, rfl⟩ := List.head?_eq_some_iff.mp next
      refine ⟨[star, slash], rest, rfl, ?_, ?_⟩
      · rw [blockEnd?, if_pos ⟨rfl, next⟩]
        rfl
      · intro more _
        rw [List.cons_append, List.cons_append, scan, if_pos ⟨rfl, rfl⟩]
        rfl
    · obtain ⟨inside, rest, rfl, stop, scanned⟩ := ih
      refine ⟨b :: inside, rest, rfl, ?_, ?_⟩
      · rw [blockEnd?, if_neg ends, List.length_cons, List.length_cons, ← stop]
        cases blockEnd? (inside ++ rest) <;> rfl
      · intro more replaces
        have goesOn : ¬(b = star ∧ (inside ++ more).head? = some slash) :=
          fun both => ends ⟨both.1, replaces.head? inside both.2⟩
        rw [List.cons_append, scan_blockComment_inside goesOn, scanned more replaces]
        rfl

/-! ### Literals -/

theorem ne_of_isQuote {b : UInt8} (quoted : isQuote b = true) : b ≠ slash ∧ b ≠ backslash ∧ b ≠ lineFeed := by
  have cases : b = 0x27 ∨ b = 0x22 := by simpa [isQuote] using quoted
  rcases cases with rfl | rfl <;> decide

/-- Whether a literal is closed by a byte and what stands behind it. -/
def ClosesLiteral (quote : UInt8) (triple : Bool) (b : UInt8) (bs : List UInt8) : Prop :=
  b = quote ∧ (triple = true → bs[0]? = some quote ∧ bs[1]? = some quote)

theorem closesAt_iff {bs : List UInt8} {quote : UInt8} {triple : Bool} {j : Nat} (inRange : j < bs.length) :
    closesAt bs quote triple j = true ↔ ClosesLiteral quote triple bs[j] (bs.drop (j + 1)) := by
  rw [closesAt, List.getElem?_eq_getElem inRange, ClosesLiteral, List.getElem?_drop, List.getElem?_drop]
  cases triple <;> simp

/-- How a literal goes on that is open before some bytes: with its inside, its closing quotes, if any, and
    with code. -/
structure LiteralEnds (fill quote : UInt8) (triple : Bool) (bs inside closing rest : List UInt8) : Prop where
  split : bs = inside ++ (closing ++ rest)
  scanned : ∀ more, Replaces more rest →
    scan fill (.literal quote triple) (inside ++ (closing ++ more))
      = inside.map (overwritten space) ++ (closing ++ scan fill .code more)
  closes : closing = List.replicate (quoteCount triple) quote ∨ closing = [] ∧ ∀ d ∈ rest.head?, d = lineFeed

variable {quote b : UInt8} {triple : Bool} {bs inside closing rest more : List UInt8}

/-- Two quotes that the scanner meets first are there whatever follows the literal. -/
theorem LiteralEnds.two_quotes (ends : LiteralEnds fill quote triple bs inside closing rest)
    (quoted : isQuote quote = true) (replaces : Replaces more rest)
    (two : (inside ++ (closing ++ more))[0]? = some quote ∧ (inside ++ (closing ++ more))[1]? = some quote) :
    bs[0]? = some quote ∧ bs[1]? = some quote := by
  rw [ends.split]
  rw [← List.append_assoc] at two ⊢
  have first := replaces.getElem? (Nat.zero_le _) two.1
  by_cases part : inside ++ closing = []
  · -- The literal ends before a line feed, which is no quote.
    obtain ⟨rfl, rfl⟩ := List.append_eq_nil_iff.mp part
    rw [List.append_nil, List.nil_append, ← List.head?_eq_getElem?] at first
    rcases ends.closes with none | ⟨-, feed⟩
    · cases triple <;> cases none
    · exact absurd (feed quote first) (ne_of_isQuote quoted).2.2
  · exact ⟨first, replaces.getElem? (List.length_pos_iff.mpr part) two.2⟩

theorem LiteralEnds.cons (ends : LiteralEnds fill quote triple bs inside closing rest)
    (goesOn : ∀ more, Replaces more rest → scan fill (.literal quote triple) (b :: (inside ++ (closing ++ more)))
      = overwritten space b :: scan fill (.literal quote triple) (inside ++ (closing ++ more))) :
    LiteralEnds fill quote triple (b :: bs) (b :: inside) closing rest where
  split := by rw [ends.split]; rfl
  scanned := by
    intro more replaces
    rw [List.cons_append, goesOn more replaces, ends.scanned more replaces]
    rfl
  closes := ends.closes

theorem LiteralEnds.escaped (ends : LiteralEnds fill quote triple bs inside closing rest) :
    LiteralEnds fill quote triple (backslash :: b :: bs) (backslash :: b :: inside) closing rest where
  split := by rw [ends.split]; rfl
  scanned := by
    intro more replaces
    rw [List.cons_append, List.cons_append, scan_literal_backslash, ends.scanned more replaces]
    rfl
  closes := ends.closes

/-- A byte that neither hides another nor ends the literal is overwritten. -/
theorem scan_literal_inside (quoted : isQuote quote = true) (noEscape : b ≠ backslash)
    (goesOn : ¬ClosesLiteral quote triple b bs) (noFeed : triple = false → b ≠ lineFeed) :
    scan fill (.literal quote triple) (b :: bs) = overwritten space b :: scan fill (.literal quote triple) bs := by
  by_cases same : b = quote
  · subst same
    have single : overwritten space b = space := if_neg (ne_of_isQuote quoted).2.2
    -- Quotes in a row that are no three.
    cases triple with
    | false => exact absurd ⟨rfl, by simp⟩ goesOn
    | true =>
      rw [single, scan.eq_def]
      rcases bs with _ | ⟨c, _ | ⟨d, bs⟩⟩
      · simp [noEscape, scan]
      · simp [noEscape]
      · have two : ¬(c = b ∧ d = b) := by simpa [ClosesLiteral] using goesOn
        simp [noEscape, two]
  · cases triple with
    | false =>
      rw [scan.eq_def]
      simp [noEscape, same, noFeed rfl, overwritten]
    | true =>
      rw [scan.eq_def]
      simp [noEscape, same, blank, overwritten]

theorem ends_closed (quoted : isQuote quote = true) (closed : ClosesLiteral quote triple b bs) :
    ∃ rest, LiteralEnds fill quote triple (b :: bs) [] (List.replicate (quoteCount triple) quote) rest := by
  obtain ⟨rfl, next⟩ := closed
  have noEscape : b ≠ backslash := (ne_of_isQuote quoted).2.1
  cases triple with
  | false =>
    refine ⟨bs, rfl, ?_, .inl rfl⟩
    intro more _
    rw [scan.eq_def]
    simp [noEscape, quoteCount]
  | true =>
    obtain ⟨next, third⟩ := next rfl
    rcases bs with _ | ⟨c, _ | ⟨d, bs⟩⟩
    · simp at next
    · simp at third
    · obtain rfl : c = b := by simpa using next
      obtain rfl : d = c := by simpa using third
      refine ⟨bs, rfl, ?_, .inl rfl⟩
      intro more _
      rw [scan.eq_def]
      simp [noEscape, quoteCount, List.replicate]

theorem ends_at_lineFeed : LiteralEnds fill quote false (lineFeed :: bs) [] [] (lineFeed :: bs) where
  split := rfl
  scanned := by
    rintro more (rfl | same)
    · simp [scan]
    · obtain ⟨more, rfl⟩ := List.head?_eq_some_iff.mp same
      rw [scan_code_cons (by decide) (by decide), scan.eq_def]
      simp [show lineFeed ≠ backslash by decide]
  closes := .inr ⟨rfl, by simp⟩

theorem ends_nil : LiteralEnds fill quote triple [] [] [] [] where
  split := rfl
  scanned := by
    intro more replaces
    rw [replaces.eq_nil, scan.eq_def]
    rfl
  closes := .inr ⟨rfl, by simp⟩

/-- The inside of a literal ends where the index stops. -/
theorem literalEnd_split (fill : UInt8) (quoted : isQuote quote = true) {j : Nat} (le : j ≤ bs.length) :
    ∃ inside closing rest, LiteralEnds fill quote triple (bs.drop j) inside closing rest
      ∧ min (literalEnd bs quote triple j) bs.length = j + inside.length := by
  fun_induction literalEnd bs quote triple j with
  | case1 j inRange stops =>
    rw [Nat.min_eq_left le, List.drop_eq_getElem_cons inRange]
    by_cases closed : closesAt bs quote triple j = true
    · obtain ⟨rest, ends⟩ := ends_closed quoted ((closesAt_iff inRange).mp closed)
      exact ⟨[], _, rest, ends, rfl⟩
    · have feed : triple = false ∧ bs[j] = lineFeed := by simpa [closed] using stops
      obtain ⟨rfl, feed⟩ := feed
      rw [feed]
      exact ⟨[], [], _, ends_at_lineFeed, rfl⟩
  | case2 j inRange goesOn escape ih =>
    rw [List.drop_eq_getElem_cons inRange, escape]
    by_cases last : j + 1 = bs.length
    · -- The backslash is the last byte, and the index passes the end.
      have beyond : literalEnd bs quote triple (j + 2) = j + 2 := by
        rw [literalEnd, dif_neg (by omega)]
      rw [beyond, last, List.drop_length]
      refine ⟨[backslash], [], [], ends_nil.cons ?_, by rw [List.length_singleton]; omega⟩
      intro more replaces
      rw [replaces.eq_nil]
      cases triple <;> simp [scan, overwritten, show backslash ≠ lineFeed by decide]
    · obtain ⟨inside, closing, rest, ends, stop⟩ := ih (by omega)
      rw [List.drop_eq_getElem_cons (show j + 1 < bs.length by omega)]
      refine ⟨backslash :: bs[j + 1] :: inside, closing, rest, ends.escaped, ?_⟩
      rw [stop, List.length_cons, List.length_cons]
      omega
  | case3 j inRange goesOn plain ih =>
    obtain ⟨inside, closing, rest, ends, stop⟩ := ih inRange
    simp only [Bool.or_eq_true, Bool.and_eq_true, Bool.not_eq_true', beq_iff_eq, not_or, not_and] at goesOn
    rw [closesAt_iff inRange] at goesOn
    rw [List.drop_eq_getElem_cons inRange]
    refine ⟨bs[j] :: inside, closing, rest, ends.cons ?_, by rw [stop, List.length_cons]; omega⟩
    intro more replaces
    refine scan_literal_inside quoted plain ?_ goesOn.2
    exact fun closed => goesOn.1 ⟨closed.1, fun three => ends.two_quotes quoted replaces (closed.2 three)⟩
  | case4 j done =>
    obtain rfl : j = bs.length := Nat.le_antisymm le (Nat.le_of_not_lt done)
    rw [List.drop_length, Nat.min_self]
    exact ⟨[], [], [], ends_nil, rfl⟩

/-- A literal opens with three quotes if two stand behind the first, else with one. -/
theorem quotes_split (opens : triple = (bs[0]? == some b && bs[1]? == some b)) :
    ∃ inner, b :: bs = List.replicate (quoteCount triple) b ++ inner := by
  cases triple with
  | false => exact ⟨bs, rfl⟩
  | true =>
    rcases bs with _ | ⟨c, _ | ⟨d, bs⟩⟩
    · simp at opens
    · simp at opens
    · obtain ⟨rfl, rfl⟩ : c = b ∧ d = b := by simpa using opens
      exact ⟨bs, rfl⟩

theorem scan_quote (fill : UInt8) (quoted : isQuote b = true)
    (opens : triple = false → ¬(bs[0]? = some b ∧ bs[1]? = some b)) :
    scan fill .code (List.replicate (quoteCount triple) b ++ bs)
      = List.replicate (quoteCount triple) b ++ scan fill (.literal b triple) bs := by
  have noSlash : b ≠ slash := (ne_of_isQuote quoted).1
  cases triple with
  | true => simp [scan, noSlash, quoted, quoteCount, List.replicate]
  | false =>
    rcases bs with _ | ⟨c, _ | ⟨d, bs⟩⟩
    · simp [scan, quoteCount]
    · simp [scan, noSlash, quoted, quoteCount]
    · have two : ¬(c = b ∧ d = b) := by simpa using opens rfl
      simp [scan, noSlash, quoted, two, quoteCount]

end Spans

/-! ### Rounds -/

/-- A byte that comments and literals are written with. -/
def IsCover (fill b : UInt8) : Prop :=
  b = fill ∨ b = space ∨ b = lineFeed ∨ isQuote b = true

theorem isCover_overwritten {fill cover : UInt8} (covers : IsCover fill cover) (b : UInt8) :
    IsCover fill (overwritten cover b) := by
  rw [overwritten]
  split
  · exact .inr (.inr (.inl ‹b = lineFeed›))
  · exact covers

/-- The bytes a round passes, what is written for them, and what follows. Only the last of the bytes written
    may be a byte of code. -/
structure Span (fill : UInt8) (span shown rest : List UInt8) : Prop where
  nonempty : span ≠ []
  length : shown.length = span.length
  scanned : ∀ more, Replaces more rest → scan fill .code (span ++ more) = shown ++ scan fill .code more
  covers : ∀ b ∈ shown.dropLast, IsCover fill b

/-- A whole literal: the bytes inside are overwritten, and its quotes stay. -/
theorem LiteralEnds.span {fill b : UInt8} {triple : Bool} {bs inside closing rest : List UInt8}
    (ends : LiteralEnds fill b triple bs inside closing rest) (quoted : isQuote b = true)
    (opens : triple = false → ¬(bs[0]? = some b ∧ bs[1]? = some b)) :
    Span fill (List.replicate (quoteCount triple) b ++ (inside ++ closing))
      (List.replicate (quoteCount triple) b ++ (inside.map (overwritten space) ++ closing)) rest where
  nonempty := by cases triple <;> simp [quoteCount]
  length := by simp only [List.length_append, List.length_map]
  scanned := by
    intro more replaces
    simp only [List.append_assoc]
    rw [scan_quote fill quoted fun single two => opens single (ends.two_quotes quoted replaces two),
      ends.scanned more replaces]
  covers := by
    intro d among
    have quotes : ∀ n, d ∈ List.replicate n b → IsCover fill d :=
      fun n among => .inr (.inr (.inr (List.eq_of_mem_replicate among ▸ quoted)))
    rcases List.mem_append.mp (List.dropLast_subset _ among) with opening | among
    · exact quotes _ opening
    rcases List.mem_append.mp among with hidden | closed
    · obtain ⟨c, -, rfl⟩ := List.mem_map.mp hidden
      exact isCover_overwritten (.inr (.inl rfl)) c
    · rcases ends.closes with rfl | ⟨rfl, -⟩
      · exact quotes _ closed
      · cases closed

/-- A sweep between two rounds: the bytes `read` are passed, and `done` is written for them. -/
structure Swept (fill : UInt8) (code : String) (s : Sweep) (read done todo : List UInt8) : Prop where
  split : bytes code = read ++ todo
  index : s.index = read.length
  out : s.out = done ++ todo
  length : done.length = read.length
  scanned : ∀ more, Replaces more todo → scan fill .code (read ++ more) = done ++ scan fill .code more

/-- The next round does not fail, and leads on. A byte of code can be only the last it passes. -/
def Advances (fill : UInt8) (code : String) (s : Sweep) : Prop :=
  ∃ t, s.round? fill code = some t ∧ s.index < t.index ∧ (∃ read done todo, Swept fill code t read done todo)
    ∧ ∀ i b, s.index ≤ i → i + 1 < t.index → (scan fill .code (bytes code))[i]? = some b → IsCover fill b

namespace Swept

variable {fill : UInt8} {code : String} {s : Sweep} {read done todo : List UInt8}

theorem getElem? (swept : Swept fill code s read done todo) (k : Nat) : (bytes code)[s.index + k]? = todo[k]? := by
  rw [swept.split, swept.index, List.getElem?_append_right (Nat.le_add_right ..), Nat.add_sub_cancel_left]

theorem length_bytes (swept : Swept fill code s read done todo) : (bytes code).length = s.index + todo.length := by
  rw [swept.split, List.length_append, swept.index]

/-- The text can be cut before and behind an ASCII byte. -/
theorem tail? (front : List UInt8) {b : UInt8} (swept : Swept fill code s read done (front ++ b :: todo))
    (ascii : b.toNat < 0x80) :
    Source.tail? code (s.index + front.length) = some (b :: todo)
      ∧ Source.tail? code (s.index + front.length + 1) = some todo := by
  have split : bytes code = (read ++ front) ++ b :: todo := by rw [swept.split, List.append_assoc]
  have beyond : bytes code = (read ++ front ++ [b]) ++ todo := by rw [split, List.append_assoc _ [b]]; rfl
  obtain ⟨here, next⟩ := Text.isValid_of_ascii ascii split
  rw [swept.index, ← List.length_append]
  refine ⟨tail?_of_isValid split here, ?_⟩
  rw [← List.length_singleton (a := b), ← List.length_append] at next ⊢
  exact tail?_of_isValid beyond next

theorem overwrite? (lead range : List UInt8) {rest : List UInt8}
    (swept : Swept fill code s read done (lead ++ (range ++ rest))) (cover : UInt8) :
    Source.overwrite? cover (s.index + lead.length) (s.index + lead.length + range.length) s.out
      = some (done ++ (lead ++ (range.map (overwritten cover) ++ rest))) := by
  have covered := overwrite?_append cover (done ++ lead) range rest
  rwa [List.length_append, swept.length, ← swept.index, List.append_assoc, List.append_assoc, ← swept.out] at covered

theorem scan_bytes (swept : Swept fill code s read done todo) :
    scan fill .code (bytes code) = done ++ scan fill .code todo := by
  rw [swept.split]
  exact swept.scanned todo (.refl todo)

/-- A round advances if it passes some bytes and writes for them what the scanner does. -/
theorem advances (span : List UInt8) {shown rest : List UInt8} (swept : Swept fill code s read done (span ++ rest))
    (passes : Span fill span shown rest)
    (round : s.round? fill code = some ⟨s.index + span.length, done ++ (shown ++ rest)⟩) : Advances fill code s := by
  have positive := List.length_pos_iff.mpr passes.nonempty
  refine ⟨_, round, Nat.lt_add_of_pos_right positive, ⟨read ++ span, done ++ shown, rest, ?_⟩, ?_⟩
  · constructor
    · rw [swept.split, List.append_assoc]
    · rw [swept.index, List.length_append]
    · rw [List.append_assoc]
    · rw [List.length_append, List.length_append, swept.length, passes.length]
    · intro more replaces
      rw [List.append_assoc, swept.scanned _ (.append passes.nonempty), passes.scanned more replaces, List.append_assoc]
  · intro i b start stop found
    rw [swept.index, ← swept.length] at start stop
    rw [swept.scan_bytes, passes.scanned rest (.refl rest), List.getElem?_append_right start] at found
    have before : i - done.length < shown.length - 1 := by
      rw [passes.length]
      change i + 1 < done.length + span.length at stop
      omega
    refine passes.covers b (List.mem_of_getElem? (i := i - done.length) ?_)
    rw [List.getElem?_dropLast, if_pos before, ← found, List.getElem?_append_left (by omega)]

theorem advances_comment {cover : UInt8} (covers : IsCover fill cover) (span : List UInt8) {rest : List UInt8}
    (swept : Swept fill code s read done (span ++ rest)) (nonempty : span ≠ [])
    (scanned : ∀ more, Replaces more rest →
      scan fill .code (span ++ more) = span.map (overwritten cover) ++ scan fill .code more)
    (round : s.round? fill code = Sweep.comment? cover s.index (s.index + span.length) s.out) :
    Advances fill code s := by
  refine swept.advances span ⟨nonempty, List.length_map _, scanned, ?_⟩ ?_
  · intro b among
    obtain ⟨d, -, rfl⟩ := List.mem_map.mp (List.dropLast_subset _ among)
    exact isCover_overwritten covers d
  · have covered := overwrite? [] span swept cover
    rw [List.length_nil, Nat.add_zero, List.nil_append] at covered
    rw [round, Sweep.comment?, covered]
    rfl

theorem round?_lineComment {more : List UInt8} (swept : Swept fill code s read done (slash :: slash :: more)) :
    Advances fill code s := by
  obtain ⟨inside, rest, rfl, stop, scanned⟩ := scan_lineComment_split fill more
  have here : (bytes code)[s.index]? = some slash := swept.getElem? 0
  have next : (bytes code)[s.index + 1]? = some slash := swept.getElem? 1
  have tail : Source.tail? code s.index = some (slash :: slash :: (inside ++ rest)) := (tail? [] swept (by decide)).1
  have stops : ((slash :: slash :: (inside ++ rest)).findIdx? (· == lineFeed)).elim (bytes code).length (s.index + ·)
      = s.index + (slash :: slash :: inside).length := by
    simp only [swept.length_bytes, List.findIdx?_cons, List.length_cons, ← stop]
    cases (inside ++ rest).findIdx? (· == lineFeed) <;> rfl
  refine swept.advances_comment (.inl rfl) (slash :: slash :: inside) (by simp) ?_ ?_
  · intro more replaces
    rw [List.cons_append, List.cons_append, scan_code_lineComment, scanned more replaces]
    simp [overwritten, show slash ≠ lineFeed by decide]
  · rw [Sweep.round?, here, Option.bind_some, if_pos ⟨rfl, next⟩, tail, Option.bind_some, stops]

theorem round?_blockComment {more : List UInt8} (swept : Swept fill code s read done (slash :: star :: more)) :
    Advances fill code s := by
  obtain ⟨inside, rest, rfl, stop, scanned⟩ := scan_blockComment_split fill more
  have here : (bytes code)[s.index]? = some slash := swept.getElem? 0
  have next : (bytes code)[s.index + 1]? = some star := swept.getElem? 1
  have tail : Source.tail? code (s.index + 2) = some (inside ++ rest) := (tail? [slash] swept (by decide)).2
  have stops : (blockEnd? (inside ++ rest)).elim (bytes code).length (s.index + 2 + · + 2)
      = s.index + (slash :: star :: inside).length := by
    simp only [swept.length_bytes, List.length_cons, ← stop]
    cases blockEnd? (inside ++ rest) with
    | none => rfl
    | some n => simp only [Option.elim_some]; omega
  have noLine : ¬(slash = slash ∧ (bytes code)[s.index + 1]? = some slash) := by
    rw [next]
    decide
  refine swept.advances_comment (.inr (.inl rfl)) (slash :: star :: inside) (by simp) ?_ ?_
  · intro more replaces
    rw [List.cons_append, List.cons_append, scan_code_blockComment, scanned more replaces]
    rfl
  · rw [Sweep.round?, here, Option.bind_some, if_neg noLine, if_pos ⟨rfl, next⟩, tail, Option.bind_some, stops]

theorem literal? {b : UInt8} {triple : Bool} {inside closing rest : List UInt8} (quoted : isQuote b = true)
    (swept : Swept fill code s read done (List.replicate (quoteCount triple) b ++ (inside ++ (closing ++ rest))))
    (opens : ((bytes code)[s.index + 1]? == some b && (bytes code)[s.index + 2]? == some b) = triple)
    (closes : closing = List.replicate (quoteCount triple) b ∨ closing = [] ∧ ∀ d ∈ rest.head?, d = lineFeed)
    (stop : min (literalEnd (bytes code) b triple (s.index + quoteCount triple)) (bytes code).length
      = s.index + quoteCount triple + inside.length) :
    Sweep.literal? (bytes code) b s.index s.out
      = some ⟨s.index + quoteCount triple + inside.length + closing.length,
          done ++ (List.replicate (quoteCount triple) b ++ (inside.map (overwritten space) ++ (closing ++ rest)))⟩ := by
  have covered := overwrite? _ _ swept space
  have length := swept.length_bytes
  have behind : (bytes code)[s.index + quoteCount triple + inside.length]? = (closing ++ rest).head? := by
    rw [Nat.add_assoc, swept.getElem?, List.getElem?_append_right (by simp), List.length_replicate,
      Nat.add_sub_cancel_left, List.getElem?_append_right (Nat.le_refl _), Nat.sub_self, List.head?_eq_getElem?]
  rw [List.length_replicate] at covered
  simp only [List.length_append, List.length_replicate] at length
  simp only [Sweep.literal?, opens, stop, Nat.min_eq_left (Nat.le_add_right ..), covered, Option.bind_some, behind]
  rcases closes with rfl | ⟨rfl, feed⟩
  · have positive : 0 < quoteCount triple := by cases triple <;> decide
    have first : (List.replicate (quoteCount triple) b ++ rest).head? = some b := by cases triple <;> rfl
    rw [if_neg (by rw [List.length_replicate] at length; omega), first, Option.map_some,
      if_neg (ne_of_isQuote quoted).2.2, List.length_replicate]
  · cases rest with
    | nil => rw [if_pos (by simp at length; omega)]; rfl
    | cons d rest =>
      rw [if_neg (by simp at length; omega)]
      simp [feed d rfl]

theorem round?_literal {b : UInt8} {more : List UInt8} (quoted : isQuote b = true)
    (swept : Swept fill code s read done (b :: more)) : Advances fill code s := by
  obtain ⟨triple, opens⟩ : ∃ triple, triple = (more[0]? == some b && more[1]? == some b) := ⟨_, rfl⟩
  obtain ⟨inner, split⟩ := quotes_split opens
  have here : (bytes code)[s.index]? = some b := swept.getElem? 0
  have next : (bytes code)[s.index + 1]? = more[0]? := swept.getElem? 1
  have third : (bytes code)[s.index + 2]? = more[1]? := swept.getElem? 2
  have noSlash : b ≠ slash := (ne_of_isQuote quoted).1
  have round : s.round? fill code = Sweep.literal? (bytes code) b s.index s.out := by
    rw [Sweep.round?, here, Option.bind_some, if_neg fun both => noSlash both.1, if_neg fun both => noSlash both.1,
      if_pos quoted]
  have single : triple = false → ¬(inner[0]? = some b ∧ inner[1]? = some b) := by
    rintro rfl
    obtain rfl : more = inner := (List.cons.inj split).2
    simpa using opens
  rw [← next, ← third] at opens
  rw [split] at swept
  have start : s.index + quoteCount triple ≤ (bytes code).length := by
    rw [swept.length_bytes, List.length_append, List.length_replicate]
    omega
  have inner_eq : (bytes code).drop (s.index + quoteCount triple) = inner := by
    rw [swept.split, swept.index, List.drop_length_add_append, List.drop_left' List.length_replicate]
  obtain ⟨inside, closing, rest, ends, stop⟩ : ∃ inside closing rest,
      LiteralEnds fill b triple inner inside closing rest
      ∧ min (literalEnd (bytes code) b triple (s.index + quoteCount triple)) (bytes code).length
        = s.index + quoteCount triple + inside.length := by
    rw [← inner_eq]
    exact literalEnd_split fill quoted start
  have passes := ends.span quoted single
  obtain rfl := ends.split
  have literal := swept.literal? quoted opens.symm ends.closes stop
  rw [← List.append_assoc inside, ← List.append_assoc] at swept
  refine swept.advances _ passes ?_
  rw [round, literal]
  simp only [List.length_append, List.length_replicate, List.append_assoc, Nat.add_assoc]

theorem round?_code {b : UInt8} {more : List UInt8} (swept : Swept fill code s read done (b :: more))
    (noLine : ¬(b = slash ∧ more.head? = some slash)) (noBlock : ¬(b = slash ∧ more.head? = some star))
    (noQuote : isQuote b = false) : Advances fill code s := by
  have here : (bytes code)[s.index]? = some b := swept.getElem? 0
  have next : (bytes code)[s.index + 1]? = more.head? := by
    rw [swept.getElem? 1, List.head?_eq_getElem?]
    rfl
  have passes : Span fill [b] [b] more := by
    refine ⟨by simp, rfl, ?_, by simp⟩
    intro other replaces
    exact scan_code_single (fun both => noLine ⟨both.1, replaces.head? [] both.2⟩)
      (fun both => noBlock ⟨both.1, replaces.head? [] both.2⟩) noQuote
  refine advances [b] swept passes ?_
  rw [← next] at noLine noBlock
  rw [Sweep.round?, here, Option.bind_some, if_neg noLine, if_neg noBlock, if_neg (by simp [noQuote]), swept.out]
  rfl

/-- A round at a byte of the text does not fail, and leads on. -/
theorem round? (swept : Swept fill code s read done todo) (more : s.index < (bytes code).length) :
    Advances fill code s := by
  have remains : todo ≠ [] := by
    rintro rfl
    rw [swept.length_bytes] at more
    exact Nat.lt_irrefl _ more
  obtain ⟨b, bs, rfl⟩ := List.exists_cons_of_ne_nil remains
  by_cases line : b = slash ∧ bs.head? = some slash
  · obtain ⟨rfl, next⟩ := line
    obtain ⟨inside, rfl⟩ := List.head?_eq_some_iff.mp next
    exact round?_lineComment swept
  by_cases block : b = slash ∧ bs.head? = some star
  · obtain ⟨rfl, next⟩ := block
    obtain ⟨inside, rfl⟩ := List.head?_eq_some_iff.mp next
    exact round?_blockComment swept
  by_cases quoted : isQuote b = true
  · exact round?_literal quoted swept
  · exact round?_code swept line block (by simpa using quoted)

theorem out_eq (swept : Swept fill code s read done todo) (passed : ¬s.index < (bytes code).length) :
    s.out = scan fill .code (bytes code) := by
  obtain rfl : todo = [] := by
    rw [swept.length_bytes] at passed
    exact List.eq_nil_of_length_eq_zero (by omega)
  rw [swept.out, swept.scan_bytes]
  simp [scan]

/-- A sweep comes to its end, with what the scanner writes. -/
theorem run? (swept : Swept fill code s read done todo) {rounds : Nat}
    (enough : (bytes code).length ≤ s.index + rounds) :
    s.run? fill code rounds = some (scan fill .code (bytes code)) := by
  induction rounds generalizing s read done todo with
  | zero =>
    have passed : ¬s.index < (bytes code).length := Nat.not_lt_of_le enough
    rw [Sweep.run?, if_neg passed, swept.out_eq passed]
  | succ rounds ih =>
    rw [Sweep.run?]
    by_cases more : s.index < (bytes code).length
    · obtain ⟨t, round, later, ⟨read', done', todo', swept'⟩, -⟩ := swept.round? more
      rw [if_pos more, round, Option.bind_some]
      exact ih swept' (by omega)
    · rw [if_neg more, swept.out_eq more]

end Swept

theorem swept_start (fill : UInt8) (code : String) : Swept fill code ⟨0, bytes code⟩ [] [] (bytes code) :=
  ⟨rfl, rfl, rfl, rfl, fun _ _ => rfl⟩

end TemplateWeaver.Source
