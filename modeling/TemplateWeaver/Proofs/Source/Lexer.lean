import TemplateWeaver.Proofs.Source.Reader

/-!
Source text as tokens. The lexer takes a comment, a literal or a character of code off the front of a
text, looks for its end in the characters ahead, and goes on behind it. `flatMap_text_lex` says that the
tokens of a text make up the text, and `flatMap_masked_lex` that the reader writes what masking makes of
them, one after the other. The end of a comment or a literal is looked up here, where the reader carries
what it has seen so far.
-/
namespace TemplateWeaver.Source

/-! ### Tokens -/

inductive Token where
  /-- A character of code. -/
  | code (c : Char)
  | lineComment (inside : List Char)
  /-- A comment behind its `/*`, with the `*/` that ends it if there is one. -/
  | blockComment (inside : List Char)
  /-- A literal that ends with its line or with the text is not `closed`. -/
  | literal (quote : Quote) (triple : Bool) (inside : List Char) (closed : Bool)

/-- What opens a literal and what closes it. -/
def delimiter (quote : Quote) (triple : Bool) : List Char :=
  if triple then [quote.char, quote.char, quote.char] else [quote.char]

namespace Token

def text : Token → List Char
  | .code c => [c]
  | .lineComment inside => '/' :: '/' :: inside
  | .blockComment inside => '/' :: '*' :: inside
  | .literal quote triple inside closed =>
    delimiter quote triple ++ inside ++ if closed then delimiter quote triple else []

/-- A token with its comment or the inside of its literal turned to spaces, one a byte. Line feeds
    stay. -/
def masked : Token → List Char
  | .code c => [c]
  | .literal quote triple inside closed =>
    delimiter quote triple ++ inside.flatMap State.cover ++ if closed then delimiter quote triple else []
  | comment => comment.text.flatMap State.cover

end Token

/-! ### The lexer -/

def Quote.ofChar? (c : Char) : Option Quote :=
  if c = '\'' then some .single else if c = '"' then some .double else none

/-- A block comment behind its `/*`: the text up to and including the first `*/`, and what follows. -/
def splitComment : List Char → List Char × List Char
  | [] => ([], [])
  | '*' :: '/' :: rest => (['*', '/'], rest)
  | c :: rest => (c :: (splitComment rest).1, (splitComment rest).2)

/-- Whether a literal ends ahead of this text: at its closing quotes, and with one quote at a line
    feed too. -/
def endsLiteral (quote : Quote) (triple : Bool) (cs : List Char) : Bool :=
  (Text.dropWord? (delimiter quote triple) cs).isSome || !triple && cs.head? == some '\n'

/-- The inside of a literal, and the text ahead of which it ends. A backslash hides itself and the next
    character. -/
def splitLiteral (quote : Quote) (triple : Bool) : List Char → List Char × List Char
  | [] => ([], [])
  | '\\' :: c :: rest => ('\\' :: c :: (splitLiteral quote triple rest).1, (splitLiteral quote triple rest).2)
  | c :: rest =>
    if endsLiteral quote triple (c :: rest) then ([], c :: rest)
    else (c :: (splitLiteral quote triple rest).1, (splitLiteral quote triple rest).2)

/-- The literal behind its opening quotes, and the text behind the literal. -/
def lexLiteral (quote : Quote) (triple : Bool) (cs : List Char) : Token × List Char :=
  let (inside, rest) := splitLiteral quote triple cs
  match Text.dropWord? (delimiter quote triple) rest with
  | some behind => (.literal quote triple inside true, behind)
  | none => (.literal quote triple inside false, rest)

/-- The first token of a text that begins with the character, and what follows it. -/
def lexToken : Char → List Char → Token × List Char
  | '/', '/' :: rest => (.lineComment (rest.takeWhile (· ≠ '\n')), rest.dropWhile (· ≠ '\n'))
  | '/', '*' :: rest => (.blockComment (splitComment rest).1, (splitComment rest).2)
  | c, rest =>
    match Quote.ofChar? c with
    | none => (.code c, rest)
    | some quote =>
      match Text.dropWord? [c, c] rest with
      | some inside => lexLiteral quote true inside
      | none => lexLiteral quote false rest

/-! ### Tokens make up the text -/

theorem append_splitComment (cs : List Char) : (splitComment cs).1 ++ (splitComment cs).2 = cs := by
  fun_induction splitComment cs with
  | case1 => rfl
  | case2 rest => rfl
  | case3 c rest _ ih => rw [List.cons_append, ih]

theorem append_splitLiteral (quote : Quote) (triple : Bool) (cs : List Char) :
    (splitLiteral quote triple cs).1 ++ (splitLiteral quote triple cs).2 = cs := by
  fun_induction splitLiteral quote triple cs with
  | case1 => rfl
  | case2 c rest ih => rw [List.cons_append, List.cons_append, ih]
  | case3 c rest _ ends => rfl
  | case4 c rest _ goesOn ih => rw [List.cons_append, ih]

theorem text_lexLiteral (quote : Quote) (triple : Bool) (cs : List Char) :
    (lexLiteral quote triple cs).1.text ++ (lexLiteral quote triple cs).2 = delimiter quote triple ++ cs := by
  have whole := append_splitLiteral quote triple cs
  fun_cases lexLiteral quote triple cs with
  | case1 inside rest split behind closes =>
    rw [split, Text.dropWord?_eq_some_iff.mp closes] at whole
    simp [Token.text, ← whole]
  | case2 inside rest split =>
    rw [split] at whole
    simp [Token.text, ← whole]

theorem Quote.ofChar?_eq_some {c : Char} {quote : Quote} (found : Quote.ofChar? c = some quote) : c = quote.char := by
  unfold Quote.ofChar? at found
  split at found
  · cases found
    assumption
  · split at found
    · cases found
      assumption
    · cases found

theorem text_lexToken (c : Char) (rest : List Char) :
    (lexToken c rest).1.text ++ (lexToken c rest).2 = c :: rest := by
  fun_cases lexToken c rest with
  | case1 rest => simp [Token.text, List.takeWhile_append_dropWhile]
  | case2 rest => simp [Token.text, append_splitComment]
  | case3 => rfl
  | case4 c rest _ _ quote found inside opens =>
    obtain rfl := Quote.ofChar?_eq_some found
    rw [Text.dropWord?_eq_some_iff] at opens
    rw [text_lexLiteral, opens]
    rfl
  | case5 c rest _ _ quote found =>
    obtain rfl := Quote.ofChar?_eq_some found
    rw [text_lexLiteral]
    rfl

theorem Token.text_ne_nil (token : Token) : token.text ≠ [] := by
  cases token with
  | literal quote triple inside closed => cases triple <;> simp [text, delimiter]
  | _ => simp [text]

theorem length_lexToken (c : Char) (rest : List Char) : (lexToken c rest).2.length < (c :: rest).length := by
  have some := List.length_pos_iff.mpr (lexToken c rest).1.text_ne_nil
  rw [← text_lexToken c rest, List.length_append]
  omega

/-- The tokens of a text. -/
def lex : List Char → List Token
  | [] => []
  | c :: rest => (lexToken c rest).1 :: lex (lexToken c rest).2
termination_by cs => cs.length
decreasing_by exact length_lexToken c rest

theorem flatMap_text_lex (cs : List Char) : (lex cs).flatMap Token.text = cs := by
  fun_induction lex cs with
  | case1 => rfl
  | case2 c rest ih => rw [List.flatMap_cons, ih, text_lexToken]

/-! ### What the reader writes of a token -/

namespace State

variable {quote : Quote} {triple : Bool} {cs : List Char}

theorem run_lineComment (cs : List Char) :
    State.lineComment.run ' ' cs
      = (cs.takeWhile (· ≠ '\n')).flatMap cover ++ State.code.run ' ' (cs.dropWhile (· ≠ '\n')) := by
  induction cs with
  | nil => rfl
  | cons c cs ih =>
    by_cases isFeed : c = '\n'
    · subst isFeed
      rfl
    · have next : State.lineComment.step c = .lineComment := by simp [step, isFeed]
      rw [run_cons, next, ih]
      simp [write, cover, isFeed]

/-- A star in a comment matters to a slash only. -/
theorem run_star (noSlash : cs.head? ≠ some '/') : State.star.run ' ' cs = State.blockComment.run ' ' cs := by
  cases cs with
  | nil => rfl
  | cons c cs =>
    have other : c ≠ '/' := by simpa using noSlash
    rw [run_cons, run_cons]
    simp [write, step, other]

theorem run_blockComment (cs : List Char) :
    State.blockComment.run ' ' cs = (splitComment cs).1.flatMap cover ++ State.code.run ' ' (splitComment cs).2 := by
  fun_induction splitComment cs with
  | case1 => rfl
  | case2 rest => rfl
  | case3 c rest open_ ih =>
    have goesOn : (State.blockComment.step c).run ' ' rest = State.blockComment.run ' ' rest := by
      by_cases isStar : c = '*'
      · subst isStar
        refine run_star ?_
        intro head
        obtain ⟨tail, split⟩ := List.head?_eq_some_iff.mp head
        exact open_ tail rfl split
      · simp [step, isStar]
    rw [run_cons, goesOn, ih, List.flatMap_cons, List.append_assoc]
    rfl

/-- Two quotes are no end of a literal that takes three. -/
theorem run_closing_two (other : cs.head? ≠ some quote.char) :
    (State.closing quote true).run ' ' cs = ' ' :: (State.closing quote false).run ' ' cs := by
  cases cs with
  | nil => rfl
  | cons c cs =>
    have notQuote : c ≠ quote.char := by simpa using other
    rw [run_cons, run_cons]
    simp [write, step, notQuote]

theorem run_closing (other : ¬[quote.char, quote.char] <+: cs) :
    (State.closing quote false).run ' ' cs = ' ' :: (State.literal quote true).run ' ' cs := by
  cases cs with
  | nil => rfl
  | cons c cs =>
    by_cases isQuote : c = quote.char
    · subst isQuote
      have single : cs.head? ≠ some quote.char := by
        intro head
        obtain ⟨tail, rfl⟩ := List.head?_eq_some_iff.mp head
        exact other ⟨tail, rfl⟩
      have closing : (State.literal quote true).step quote.char = .closing quote false := by
        simp [step, insideTriple]
      rw [run_cons, run_cons, closing]
      simp [write, step, run_closing_two single]
    · rw [run_cons, run_cons]
      simp [write, step, isQuote]

/-- A character that neither hides another nor ends the literal is covered. -/
theorem run_literal_cons {c : Char} (visible : ∀ d ds, c = '\\' → cs = d :: ds → False)
    (goesOn : endsLiteral quote triple (c :: cs) = false) :
    (State.literal quote triple).run ' ' (c :: cs) = cover c ++ (State.literal quote triple).run ' ' cs := by
  by_cases isEscape : c = '\\'
  · have last : cs = [] := by
      cases cs with
      | nil => rfl
      | cons d ds => exact (visible d ds isEscape rfl).elim
    subst isEscape last
    cases triple <;>
      simp [write, step, inside, insideTriple, (quote_ne_backslash quote).1.symm, run, output, flush]
  cases triple with
  | false =>
    obtain ⟨notQuote, notFeed⟩ : quote.char ≠ c ∧ c ≠ '\n' := by
      simpa [endsLiteral, delimiter, Text.dropWord?] using goesOn
    rw [run_cons]
    simp [write, step, inside, isEscape, notQuote.symm, notFeed]
  | true =>
    rw [run_cons]
    by_cases isQuote : c = quote.char
    · subst isQuote
      have single : ¬[quote.char, quote.char] <+: cs := by
        rintro ⟨tail, rfl⟩
        simp [endsLiteral, delimiter, Text.dropWord?] at goesOn
      have covered : cover quote.char = [' '] := by cases quote <;> rfl
      simp [write, step, insideTriple, isEscape, run_closing single, covered]
    · simp [write, step, insideTriple, isEscape, isQuote]

/-- A literal up to what ends it, as it is written. -/
theorem run_literal (quote : Quote) (triple : Bool) (cs : List Char) :
    (State.literal quote triple).run ' ' cs = (splitLiteral quote triple cs).1.flatMap cover
      ++ (State.literal quote triple).run ' ' (splitLiteral quote triple cs).2 := by
  fun_induction splitLiteral quote triple cs with
  | case1 => rfl
  | case2 c rest ih =>
    have hidden : (State.literal quote triple).step '\\' = .escaped quote triple := by
      cases triple <;> simp [step, inside, insideTriple]
    have covered : (State.literal quote triple).write ' ' '\\' = cover '\\' := by
      cases triple <;> simp [write, (quote_ne_backslash quote).1.symm]
    rw [run_cons, run_cons, hidden, covered]
    simp [step, write, ih]
  | case3 c rest _ ends => rfl
  | case4 c rest visible goesOn ih =>
    rw [List.flatMap_cons, List.append_assoc, ← ih]
    exact run_literal_cons visible (by simpa using goesOn)

/-- The closing quotes of a literal stay; a line feed that ends one is read as code. -/
theorem run_literal_end (ends : cs = [] ∨ endsLiteral quote triple cs = true) :
    (State.literal quote triple).run ' ' cs
      = match Text.dropWord? (delimiter quote triple) cs with
        | some behind => delimiter quote triple ++ State.code.run ' ' behind
        | none => State.code.run ' ' cs := by
  rcases closes : Text.dropWord? (delimiter quote triple) cs with _ | behind
  · rcases ends with rfl | ends
    · rfl
    · obtain ⟨rfl, feed⟩ : triple = false ∧ cs.head? = some '\n' := by
        simpa [endsLiteral, closes] using ends
      obtain ⟨tail, rfl⟩ := List.head?_eq_some_iff.mp feed
      have other := (quote_ne_lineFeed quote).1.symm
      rw [run_cons]
      simp [write, step, inside, other, cover, run_cons, start, reveal]
  · obtain rfl := Text.dropWord?_eq_some_iff.mp closes
    have notEscape := (quote_ne_backslash quote).1
    cases triple <;> simp [delimiter, run_cons, step, write, inside, insideTriple, notEscape]

theorem splitLiteral_ends (quote : Quote) (triple : Bool) (cs : List Char) :
    (splitLiteral quote triple cs).2 = [] ∨ endsLiteral quote triple (splitLiteral quote triple cs).2 = true := by
  fun_induction splitLiteral quote triple cs with
  | case1 => exact .inl rfl
  | case2 c rest ih => exact ih
  | case3 c rest _ ends => exact .inr ends
  | case4 c rest _ goesOn ih => exact ih

theorem run_lexLiteral (quote : Quote) (triple : Bool) (cs : List Char) :
    delimiter quote triple ++ (State.literal quote triple).run ' ' cs
      = (lexLiteral quote triple cs).1.masked ++ State.code.run ' ' (lexLiteral quote triple cs).2 := by
  have ends := run_literal_end (splitLiteral_ends quote triple cs)
  rw [run_literal, ends]
  fun_cases lexLiteral quote triple cs with
  | case1 inside rest split behind closes => simp [split, closes, Token.masked]
  | case2 inside rest split open_ => simp [split, open_, Token.masked]

theorem run_slash (noSlash : cs.head? ≠ some '/') (noStar : cs.head? ≠ some '*') :
    State.slash.run ' ' cs = '/' :: State.code.run ' ' cs := by
  cases cs with
  | nil => rfl
  | cons c cs =>
    have notSlash : c ≠ '/' := by simpa using noSlash
    have notStar : c ≠ '*' := by simpa using noStar
    rw [run_cons, run_cons]
    simp [write, step, notSlash, notStar]

/-- Behind two quotes that no third follows, the empty literal is over. -/
theorem run_paired (other : cs.head? ≠ some quote.char) :
    (State.paired quote).run ' ' cs = State.code.run ' ' cs := by
  cases cs with
  | nil => rfl
  | cons c cs =>
    have notQuote : c ≠ quote.char := by simpa using other
    rw [run_cons, run_cons]
    simp [write, step, notQuote]

/-- A quote that is not the first of three opens a literal with one quote. -/
theorem run_opened (other : Text.dropWord? [quote.char, quote.char] cs = none) :
    (State.opened quote).run ' ' cs = (State.literal quote false).run ' ' cs := by
  cases cs with
  | nil => rfl
  | cons c cs =>
    rw [run_cons, run_cons]
    by_cases isQuote : c = quote.char
    · subst isQuote
      have single : cs.head? ≠ some quote.char := by
        intro head
        obtain ⟨tail, rfl⟩ := List.head?_eq_some_iff.mp head
        simp [Text.dropWord?] at other
      simp [write, step, inside, (quote_ne_backslash quote).1, run_paired single]
    · simp [write, step, isQuote]

theorem run_quote (quote : Quote) (cs : List Char) :
    State.code.run ' ' (quote.char :: cs) = quote.char :: (State.opened quote).run ' ' cs := by
  rw [run_cons]
  cases quote <;> rfl

theorem run_triple (quote : Quote) (cs : List Char) :
    (State.opened quote).run ' ' (quote.char :: quote.char :: cs)
      = quote.char :: quote.char :: (State.literal quote true).run ' ' cs := by
  rw [run_cons, run_cons]
  simp [write, step]

theorem start_of_ofChar? {c : Char} (noSlash : c ≠ '/') (noQuote : Quote.ofChar? c = none) : start c = .code := by
  unfold Quote.ofChar? at noQuote
  split at noQuote
  · cases noQuote
  · split at noQuote
    · cases noQuote
    · simp_all [start]

/-- What is written of a text is its first token, masked, and what is written of the rest. -/
theorem run_lexToken (c : Char) (rest : List Char) :
    State.code.run ' ' (c :: rest)
      = (lexToken c rest).1.masked ++ State.code.run ' ' (lexToken c rest).2 := by
  fun_cases lexToken c rest with
  | case1 rest =>
    have opens : State.code.run ' ' ('/' :: '/' :: rest) = ' ' :: ' ' :: State.lineComment.run ' ' rest := rfl
    rw [opens, run_lineComment]
    rfl
  | case2 rest =>
    have opens : State.code.run ' ' ('/' :: '*' :: rest) = ' ' :: ' ' :: State.blockComment.run ' ' rest := rfl
    rw [opens, run_blockComment]
    rfl
  | case3 c rest noLine noBlock plain =>
    by_cases isSlash : c = '/'
    · subst isSlash
      have opens : State.code.run ' ' ('/' :: rest) = State.slash.run ' ' rest := rfl
      rw [opens, run_slash]
      · rfl
      · intro head
        obtain ⟨tail, rfl⟩ := List.head?_eq_some_iff.mp head
        exact noLine tail rfl rfl
      · intro head
        obtain ⟨tail, rfl⟩ := List.head?_eq_some_iff.mp head
        exact noBlock tail rfl rfl
    · have stays : start c = .code := start_of_ofChar? isSlash plain
      rw [run_cons]
      simp [write, step, reveal, isSlash, stays, Token.masked]
  | case4 c rest _ _ quote found inside opens =>
    obtain rfl := Quote.ofChar?_eq_some found
    obtain rfl := Text.dropWord?_eq_some_iff.mp opens
    rw [← run_lexLiteral, run_quote]
    exact congrArg _ (run_triple quote inside)
  | case5 c rest _ _ quote found opens =>
    obtain rfl := Quote.ofChar?_eq_some found
    rw [← run_lexLiteral, run_quote, run_opened opens]
    rfl

end State

/-- The reader writes the tokens of a text, masked. -/
theorem flatMap_masked_lex (cs : List Char) : (lex cs).flatMap Token.masked = State.code.run ' ' cs := by
  fun_induction lex cs with
  | case1 => rfl
  | case2 c rest ih => rw [List.flatMap_cons, ih, State.run_lexToken]

/-- A text is the tokens that the lexer finds in it, and masking it masks each of them. -/
theorem mask_eq_tokens (code : String) :
    code = String.ofList ((lex code.toList).flatMap Token.text)
      ∧ mask code = String.ofList ((lex code.toList).flatMap Token.masked) := by
  constructor
  · rw [flatMap_text_lex, String.ofList_toList]
  · rw [mask_eq, flatMap_masked_lex]

end TemplateWeaver.Source
