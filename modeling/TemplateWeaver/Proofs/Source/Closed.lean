import TemplateWeaver.Proofs.Source.LineComment
import TemplateWeaver.Proofs.Text.Trim
import TemplateWeaver.Source.Literal

/-!
Closed text: text that the reader leaves outside literals and block comments, with as many opening
as closing braces in code. A `Line` may stand on a line of its own between lines of code, a `Plain`
text also within a line. Names, literals between plain texts and the fixed texts of generated code
are plain; `balance_eq` ties the count of braces to the masked text.
-/
namespace TemplateWeaver.Source

namespace State

/-! ### Code and its braces -/

/-- The next character is one of code, or begins a comment. -/
def inCode : State → Bool
  | .code | .slash | .paired _ => true
  | _ => false

/-- Outside literals and block comments. -/
def atRest : State → Bool
  | .lineComment => true
  | s => s.inCode

theorem atRest_of_inCode {s : State} (ready : s.inCode = true) : s.atRest = true := by
  cases s <;> simp_all [inCode, atRest]

/-- How many braces a character opens. -/
def weight (s : State) (c : Char) : Int :=
  if s.inCode then if c = '{' then 1 else if c = '}' then -1 else 0 else 0

/-- Opening less closing braces among the characters that are read in code. -/
def balance : State → List Char → Int
  | _, [] => 0
  | s, c :: cs => s.weight c + balance (s.step c) cs

@[simp]
theorem balance_append (s : State) (cs ds : List Char) :
    s.balance (cs ++ ds) = s.balance cs + (s.after cs).balance ds := by
  induction cs generalizing s with
  | nil => simp [balance]
  | cons c cs ih => simp [balance, ih, Int.add_assoc]

theorem count_write {b : Char} (brace : b = '{' ∨ b = '}') (s : State) (c : Char) :
    (s.write ' ' c).count b = if s.inCode ∧ c = b then 1 else 0 := by
  have notSpace : ' ' ≠ b := by rcases brace with rfl | rfl <;> decide
  have notSlash : '/' ≠ b := by rcases brace with rfl | rfl <;> decide
  have notStar : '*' ≠ b := by rcases brace with rfl | rfl <;> decide
  have notQuote : ∀ quote : Quote, quote.char ≠ b := by
    intro quote
    rcases brace with rfl | rfl <;> cases quote <;> decide
  have covered : (cover c).count b = 0 := by
    rw [List.count_eq_zero, cover]
    rcases brace with rfl | rfl <;> split <;> simp_all
  have revealed : (reveal c).count b = if c = b then 1 else 0 := by
    rw [reveal]
    split <;> simp_all [List.count_singleton]
  cases s with
  | code => simpa [write, inCode] using revealed
  | slash =>
    simp only [write]
    split
    · simp_all
    split <;> simp_all [inCode]
  | lineComment => exact covered
  | blockComment | star | escaped => simpa [write, inCode] using covered
  | opened quote =>
    simp only [write]
    split <;> simp_all [inCode]
  | paired quote =>
    simp only [write]
    split <;> simp_all [inCode]
  | literal quote triple =>
    cases triple <;> simp only [write] <;> split <;> simp_all [inCode]
  | closing quote two =>
    cases two <;> simp only [write] <;> split <;> simp_all [inCode]

/-- The balance is that of the braces which masking leaves. -/
theorem balance_eq (s : State) (cs : List Char) :
    ((s.run ' ' cs).count '{' : Int) - (s.run ' ' cs).count '}' = s.balance cs := by
  induction cs generalizing s with
  | nil =>
    cases s with
    | closing quote two => cases two <;> rfl
    | _ => rfl
  | cons c cs ih =>
    have opening := count_write (b := '{') (.inl rfl) s c
    have closing := count_write (b := '}') (.inr rfl) s c
    have rest := ih (s.step c)
    rw [run_cons, List.count_append, List.count_append, opening, closing, balance, ← rest, weight]
    cases s.inCode
    · simp
    · by_cases opens : c = '{'
      · simp [opens]
        omega
      · by_cases closes : c = '}' <;> simp [opens, closes]
        omega

end State

theorem braceDelta_eq (code : String) : braceDelta code = State.code.balance code.toList := by
  have opening := Text.count_encode (a := '{') (by decide) (State.code.run ' ' code.toList)
  have closing := Text.count_encode (a := '}') (by decide) (State.code.run ' ' code.toList)
  rw [braceDelta, maskBytes_bytes, ← State.balance_eq, ← opening, ← closing]
  rfl

/-! ### Characters that change nothing -/

/-- Neither a brace, nor part of what opens or closes a comment or a literal, nor a line feed. -/
def isPlain (c : Char) : Bool :=
  c ∉ ['/', '*', '\'', '"', '{', '}', '\n']

namespace State

variable {s : State} {c : Char} {cs : List Char}

theorem start_plain (plain : isPlain c = true) : start c = .code := by
  simp only [isPlain, List.mem_cons, not_or, decide_eq_true_eq] at plain
  simp [start, plain]

theorem step_plain (plain : isPlain c = true) (ready : s.inCode = true) : s.step c = .code := by
  have begins := start_plain plain
  simp only [isPlain, List.mem_cons, not_or, decide_eq_true_eq] at plain
  cases s with
  | code => exact begins
  | slash => simp [step, plain, begins]
  | paired quote => cases quote <;> simp [step, plain, begins, Quote.char]
  | _ => simp [inCode] at ready

theorem weight_plain (plain : isPlain c = true) : s.weight c = 0 := by
  simp only [isPlain, List.mem_cons, not_or, decide_eq_true_eq] at plain
  simp [weight, plain]

theorem after_plain (plain : ∀ c ∈ cs, isPlain c = true) : State.code.after cs = .code := by
  induction cs with
  | nil => rfl
  | cons c cs ih =>
    rw [after_cons, step_plain (plain c (by simp)) rfl]
    exact ih fun d member => plain d (by simp [member])

theorem balance_plain (plain : ∀ c ∈ cs, isPlain c = true) : s.balance cs = 0 := by
  induction cs generalizing s with
  | nil => rfl
  | cons c cs ih =>
    rw [balance, weight_plain (plain c (by simp)), ih fun d member => plain d (by simp [member])]
    rfl

/-- A plain character leads out of no literal and out of no comment. -/
theorem inCode_of_step_plain (plain : isPlain c = true) (ready : (s.step c).inCode = true) : s.inCode = true := by
  simp only [isPlain, List.mem_cons, not_or, decide_eq_true_eq] at plain
  cases s with
  | literal quote triple =>
    cases quote <;> cases triple <;> simp [step, inside, insideTriple, Quote.char, plain] at ready <;>
      split at ready <;> simp [inCode] at ready
  | opened quote =>
    cases quote <;> simp [step, inside, Quote.char, plain] at ready <;> split at ready <;> simp [inCode] at ready
  | closing quote two =>
    cases quote <;> simp [step, insideTriple, Quote.char, plain] at ready <;> split at ready <;>
      simp [inCode] at ready
  | lineComment | blockComment | star | escaped => simp [step, plain, inCode] at ready
  | _ => rfl

theorem atRest_of_step_plain (plain : isPlain c = true) (rests : (s.step c).atRest = true) : s.atRest = true := by
  by_cases comment : s.step c = .lineComment
  · obtain ⟨rfl, -⟩ | ⟨rfl, -⟩ := step_eq_lineComment comment <;> rfl
  · have ready : (s.step c).inCode = true := by
      generalize s.step c = t at rests comment
      cases t <;> simp_all [atRest]
    exact atRest_of_inCode (inCode_of_step_plain plain ready)

theorem atRest_of_after_plain (plain : ∀ c ∈ cs, isPlain c = true) (rests : (s.after cs).atRest = true) :
    s.atRest = true := by
  induction cs generalizing s with
  | nil => exact rests
  | cons c cs ih =>
    have later := ih (fun d member => plain d (by simp [member])) rests
    exact atRest_of_step_plain (plain c (by simp)) later

/-- A line feed leads from rest back to code. -/
theorem step_lineFeed (rests : s.atRest = true) : s.step '\n' = .code := by
  cases s with
  | code | slash | lineComment => rfl
  | paired quote => cases quote <;> rfl
  | _ => simp [atRest, inCode] at rests

theorem weight_lineFeed : s.weight '\n' = 0 := by
  simp [weight]

end State

/-! ### Blank ends -/

theorem isPlain_of_isBlank {c : Char} (blank : Text.isBlank c = true) (notFeed : c ≠ '\n') : isPlain c = true := by
  simp only [isPlain, List.mem_cons, List.not_mem_nil, or_false, decide_eq_true_eq]
  rintro (rfl | rfl | rfl | rfl | rfl | rfl | rfl)
  any_goals revert blank; decide
  exact notFeed rfl

theorem State.after_blank {cs : List Char} (blank : ∀ c ∈ cs, Text.isBlank c = true) :
    State.code.after cs = .code := by
  induction cs with
  | nil => rfl
  | cons c cs ih =>
    have stays : State.code.step c = .code := by
      by_cases isFeed : c = '\n'
      · subst isFeed
        rfl
      · exact step_plain (isPlain_of_isBlank (blank c (by simp)) isFeed) rfl
    rw [after_cons, stays]
    exact ih fun d member => blank d (by simp [member])

theorem State.balance_blank {s : State} {cs : List Char} (blank : ∀ c ∈ cs, Text.isBlank c = true) :
    s.balance cs = 0 := by
  induction cs generalizing s with
  | nil => rfl
  | cons c cs ih =>
    have weightless : s.weight c = 0 := by
      by_cases isFeed : c = '\n'
      · rw [isFeed, weight_lineFeed]
      · exact weight_plain (isPlain_of_isBlank (blank c (by simp)) isFeed)
    rw [balance, weightless, ih fun d member => blank d (by simp [member])]
    rfl

/-! ### Lines and closed texts -/

/-- Read from code, the text leaves the reader at rest, and it opens `braces` more braces than it
    closes. -/
structure Line (text : String) (braces : Int) : Prop where
  rests : (State.code.after text.toList).atRest = true
  balance : State.code.balance text.toList = braces

/-- The trimmed text leaves the reader outside literals and block comments, and its braces
    balance. -/
structure Closed (text : String) : Prop where
  rests : (State.code.after (Text.trim text).toList).atRest = true
  balanced : braceDelta (Text.trim text) = 0

theorem Closed.line {text : String} (closed : Closed text) : Line (Text.trim text) 0 :=
  ⟨closed.rests, by rw [← braceDelta_eq, closed.balanced]⟩

theorem Line.closed {text : String} (line : Line (Text.trim text) 0) : Closed text :=
  ⟨line.rests, by rw [braceDelta_eq, line.balance]⟩

namespace Line

variable {a b text : String} {d e : Int}

/-- A line stays one without blank characters at its ends, as long as no line feed is among those
    behind it. -/
theorem trim_of_back (line : Line text d) {front back : List Char} (split : text.toList = front ++ b.toList ++ back)
    (blankFront : ∀ c ∈ front, Text.isBlank c = true) (plainBack : ∀ c ∈ back, isPlain c = true) : Line b d := by
  obtain ⟨rests, balance⟩ := line
  rw [split, State.after_append, State.after_append, State.after_blank blankFront] at rests
  rw [split, State.balance_append, State.balance_append, State.after_blank blankFront,
    State.balance_blank blankFront, State.balance_plain plainBack] at balance
  exact ⟨State.atRest_of_after_plain plainBack rests, by omega⟩

theorem trim (line : Line text d) (flat : '\n' ∉ text.toList) : Line (Text.trim text) d := by
  obtain ⟨front, back, split, blankFront, blankBack⟩ := Text.trim_split text
  refine line.trim_of_back split blankFront fun c member => isPlain_of_isBlank (blankBack c member) ?_
  rintro rfl
  exact flat (by simp [split, member])

theorem trim_of_last (line : Line text d) {c : Char} (last : text.toList.getLast? = some c)
    (solid : Text.isBlank c = false) : Line (Text.trim text) d := by
  obtain ⟨front, back, split, blankFront, blankBack⟩ := Text.trim_split text
  have none : back = [] := by
    rcases List.eq_nil_or_concat back with empty | ⟨inner, z, rfl⟩
    · exact empty
    · rw [split, List.concat_eq_append, ← List.append_assoc, List.getLast?_concat] at last
      have blank := blankBack z (by simp)
      rw [Option.some.inj last, solid] at blank
      cases blank
  subst none
  exact line.trim_of_back split blankFront (by simp)

end Line

/-! ### Whole texts -/

/-- The text leads from code back to code and opens `braces` more braces than it closes. -/
structure Whole (text : String) (braces : Int) : Prop where
  after : State.code.after text.toList = .code
  balance : State.code.balance text.toList = braces

namespace Whole

variable {a b text : String} {d e : Int}

theorem append (left : Whole a d) (right : Whole b e) : Whole (a ++ b) (d + e) where
  after := by rw [String.toList_append, State.after_append, left.after, right.after]
  balance := by rw [String.toList_append, State.balance_append, left.after, left.balance, right.balance]

theorem blank (blank : ∀ c ∈ text.toList, Text.isBlank c = true) : Whole text 0 :=
  ⟨State.after_blank blank, State.balance_blank blank⟩

theorem line (line : Line text d) : Whole (text ++ "\n") d := by
  have feed : ("\n" : String).toList = ['\n'] := rfl
  refine ⟨?_, ?_⟩
  · rw [String.toList_append, State.after_append, feed, State.after_cons, State.step_lineFeed line.rests]
    rfl
  · rw [String.toList_append, State.balance_append, line.balance, feed, State.balance, State.weight_lineFeed]
    simp [State.balance]

end Whole

/-! ### Plain texts -/

/-- From anywhere in code the text leads to code, on one line, and opens `braces` more braces than
    it closes. -/
structure Plain (text : String) (braces : Int) : Prop where
  flat : '\n' ∉ text.toList
  after : ∀ s : State, s.inCode = true → s.after text.toList = .code
  balance : ∀ s : State, s.inCode = true → s.balance text.toList = braces

namespace Plain

variable {a b text : String} {d e : Int}

theorem line (plain : Plain text d) : Line text d :=
  ⟨by rw [plain.after .code rfl]; rfl, plain.balance .code rfl⟩

theorem append (left : Plain a d) (right : Plain b e) : Plain (a ++ b) (d + e) where
  flat := by simpa using ⟨left.flat, right.flat⟩
  after s ready := by
    rw [String.toList_append, State.after_append, left.after s ready, right.after .code rfl]
  balance s ready := by
    rw [String.toList_append, State.balance_append, left.after s ready, left.balance s ready,
      right.balance .code rfl]

/-- A plain text keeps a line that follows it a line. -/
theorem append_line (left : Plain a d) (right : Line b e) : Line (a ++ b) (d + e) where
  rests := by rw [String.toList_append, State.after_append, left.after .code rfl]; exact right.rests
  balance := by
    rw [String.toList_append, State.balance_append, left.after .code rfl, left.balance .code rfl, right.balance]

/-- Behind a line that does not end in a comment, a plain text goes on with the line. -/
theorem line_append (right : Plain b e) (left : Line a d) (outside : State.code.after a.toList ≠ .lineComment) :
    Line (a ++ b) (d + e) := by
  obtain ⟨rests, balance⟩ := left
  have ready : (State.code.after a.toList).inCode = true := by
    generalize State.code.after a.toList = s at rests outside
    cases s <;> simp_all [State.atRest]
  refine ⟨?_, ?_⟩
  · rw [String.toList_append, State.after_append, right.after _ ready]
    rfl
  · rw [String.toList_append, State.balance_append, balance, right.balance _ ready]

theorem ofPlainChars (some : text ≠ "") (plain : ∀ c ∈ text.toList, isPlain c = true) : Plain text 0 where
  flat member := by
    have := plain _ member
    revert this
    decide
  after s ready := by
    rcases split : text.toList with _ | ⟨c, cs⟩
    · exact absurd (String.toList_eq_nil_iff.mp split) some
    · rw [split] at plain
      rw [State.after_cons, State.step_plain (plain c (by simp)) ready]
      exact State.after_plain fun d member => plain d (by simp [member])
  balance s _ := State.balance_plain plain

/-- A fixed text begins with a character that neither a slash nor quotes before it can change, and
    ends in code. -/
def isFixed (l : List Char) : Bool :=
  match l with
  | [] => false
  | c :: cs =>
    c ∉ ['/', '*', '\'', '"'] && !(c :: cs).contains '\n' && State.code.after (c :: cs) == .code

theorem of_isFixed {l : List Char} (check : isFixed l = true) :
    Plain (String.ofList l) (State.code.balance l) := by
  rw [isFixed.eq_def] at check
  cases l with
  | nil => simp at check
  | cons c cs =>
    simp only [Bool.and_eq_true, decide_eq_true_eq, Bool.not_eq_true', List.contains_eq_mem, decide_eq_false_iff_not,
      beq_iff_eq, List.mem_cons, not_or, List.not_mem_nil, or_false] at check
    obtain ⟨⟨free, flat⟩, ends⟩ := check
    have step : ∀ s : State, s.inCode = true → s.step c = State.code.step c ∧ s.weight c = State.code.weight c := by
      intro s ready
      refine ⟨?_, by rw [State.weight, ready]; rfl⟩
      cases s with
      | code => rfl
      | slash => simp [State.step, free]
      | paired quote => cases quote <;> simp [State.step, free, Quote.char]
      | _ => simp [State.inCode] at ready
    refine ⟨by simpa using flat, ?_, ?_⟩
    · intro s ready
      rw [String.toList_ofList, State.after_cons, (step s ready).1]
      exact ends
    · intro s ready
      rw [String.toList_ofList, State.balance, (step s ready).1, (step s ready).2, State.balance]

end Plain

/-! ### Drafts -/

/-- The braces that a fixed text opens, if it is one. -/
def tally (l : List Char) : Option Int :=
  if Plain.isFixed l then some (State.code.balance l) else none

/-- The braces of two texts, if both have a number of them. -/
def total (x y : Option Int) : Option Int :=
  x.bind fun d => y.map (d + ·)

/-- A text put together from fixed texts and plain ones. It is plain if all its fixed texts are what
    they have to be, and then `braces` is what it opens. -/
def Draft (text : String) (braces : Option Int) : Prop :=
  ∀ d, braces = some d → Plain text d

theorem Plain.draft {text : String} {d : Int} (plain : Plain text d) : Draft text (some d) := by
  intro e same
  obtain rfl := Option.some.inj same
  exact plain

namespace Draft

variable {a b text : String} {d : Int} {x y : Option Int} {l : List Char}

theorem plain (draft : Draft text x) (check : x = some d) : Plain text d :=
  draft d check

theorem fixed : Draft (String.ofList l) (tally l) := by
  intro d same
  rw [tally] at same
  split at same
  · rename_i check
    obtain rfl := Option.some.inj same
    exact .of_isFixed check
  · cases same

theorem append (left : Draft a x) (right : Draft b y) : Draft (a ++ b) (total x y) := by
  intro n same
  obtain ⟨d, first, last⟩ := Option.bind_eq_some_iff.mp same
  obtain ⟨e, second, rfl⟩ := Option.map_eq_some_iff.mp last
  exact (left d first).append (right e second)

/-- A draft that goes on with a plain text and a fixed one. -/
theorem slot (left : Draft a x) (middle : Plain b d) :
    Draft (a ++ b ++ String.ofList l) (total (total x (some d)) (tally l)) :=
  (left.append middle.draft).append fixed

end Draft

namespace Plain

variable {a : String} {d : Int} {k l : List Char}

/-- A plain text and a fixed text behind it. -/
theorem ahead (left : Plain a d) : Draft (a ++ String.ofList l) (total (some d) (tally l)) :=
  left.draft.append .fixed

/-- A plain text between two fixed ones. -/
theorem within (middle : Plain a d) :
    Draft (String.ofList k ++ a ++ String.ofList l) (total (total (tally k) (some d)) (tally l)) :=
  (Draft.fixed.append middle.draft).append .fixed

end Plain

/-! ### Comments -/

/-- Without a line feed, a line comment goes on, and none of it is code. -/
theorem State.after_lineComment {cs : List Char} (flat : '\n' ∉ cs) :
    State.lineComment.after cs = .lineComment ∧ State.lineComment.balance cs = 0 := by
  induction cs with
  | nil => exact ⟨rfl, rfl⟩
  | cons c cs ih =>
    have notFeed : c ≠ '\n' := fun same => flat (by simp [same])
    obtain ⟨stays, weightless⟩ := ih fun member => flat (by simp [member])
    have next : State.lineComment.step c = .lineComment := by simp [step, notFeed]
    refine ⟨by rw [after_cons, next, stays], ?_⟩
    rw [balance, next, weightless]
    rfl

/-- A line comment, without the line feed that ends it. -/
def Comment (text : String) : Prop :=
  ∃ cs, text.toList = '/' :: '/' :: cs ∧ '\n' ∉ cs

namespace Comment

variable {a b text : String}

theorem fixed {l : List Char} (flat : l.contains '\n' = false) : Comment (String.ofList ('/' :: '/' :: l)) :=
  ⟨l, String.toList_ofList, by simpa using flat⟩

theorem append (left : Comment a) (flat : '\n' ∉ b.toList) : Comment (a ++ b) := by
  obtain ⟨cs, split, rest⟩ := left
  exact ⟨cs ++ b.toList, by simp [split], by simpa using ⟨rest, flat⟩⟩

theorem flat (comment : Comment text) : '\n' ∉ text.toList := by
  obtain ⟨cs, split, rest⟩ := comment
  simpa [split] using rest

theorem line (comment : Comment text) : Line text 0 := by
  obtain ⟨cs, split, rest⟩ := comment
  have inside := State.after_lineComment rest
  have opens : (State.code.step '/').step '/' = .lineComment := rfl
  refine ⟨?_, ?_⟩
  · rw [split, State.after_cons, State.after_cons, opens, inside.1]
    rfl
  · rw [split, State.balance, State.balance, opens, inside.2]
    rfl

end Comment

/-! ### Names and literals -/

theorem isPlain_of_isNameStart {c : Char} (start : isNameStart c = true ∨ c.isDigit = true) : isPlain c = true := by
  simp only [isPlain, List.mem_cons, List.not_mem_nil, or_false, decide_eq_true_eq]
  rintro (rfl | rfl | rfl | rfl | rfl | rfl | rfl) <;> revert start <;> decide

theorem not_isBlank_of_isNameStart {c : Char} (start : isNameStart c = true ∨ c.isDigit = true) :
    Text.isBlank c = false := by
  have range : 0x24 ≤ c.toNat ∧ c.toNat ≤ 0x7A := by
    have value : c.toNat = c.val.toNat := rfl
    have alpha : c.isAlpha = (c.isUpper || c.isLower) := rfl
    have upper : c.isUpper = decide (c.val ≥ 'A'.val ∧ c.val ≤ 'Z'.val) := rfl
    have lower : c.isLower = (decide (c.val ≥ 'a'.val) && decide (c.val ≤ 'z'.val)) := rfl
    simp only [isNameStart, alpha, upper, lower, Char.isDigit, Bool.or_eq_true, Bool.and_eq_true, decide_eq_true_eq,
      beq_iff_eq, UInt32.le_iff_toNat_le, ge_iff_le] at start
    rcases start with (((⟨low, high⟩ | ⟨low, high⟩) | rfl) | rfl) | ⟨low, high⟩
    · simp at low high
      omega
    · simp at low high
      omega
    · decide
    · decide
    · simp at low high
      omega
  simp [Text.isBlank, Text.inRanges, Text.blankRanges]
  omega

theorem isNameStart_of_mem_name {name : String} (legal : isMemberName name = true) {c : Char}
    (member : c ∈ name.toList) : isNameStart c = true ∨ c.isDigit = true := by
  rw [isMemberName] at legal
  rcases split : name.toList with _ | ⟨d, ds⟩
  · simp [split] at member
  · simp only [split, Bool.and_eq_true, List.all_eq_true, Bool.or_eq_true] at legal
    rw [split] at member
    rcases List.mem_cons.mp member with rfl | inside
    · exact .inl legal.1
    · exact legal.2 c inside

theorem Plain.name {name : String} (legal : isMemberName name = true) : Plain name 0 := by
  refine .ofPlainChars ?_ fun c member => isPlain_of_isNameStart (isNameStart_of_mem_name legal member)
  rintro rfl
  simp [isMemberName] at legal

namespace State

/-- Inside a literal, a character in its escaped form leads on inside, and none of it is code. -/
theorem read_escapeChar {s : State} (within : s = .opened .single ∨ s = .literal .single false) (c : Char) :
    s.after (escapeChar c) = .literal .single false ∧ s.balance (escapeChar c) = 0 := by
  rcases escapeChar_cases c with ⟨d, -, hidden⟩ | ⟨solid, same⟩
  · rw [hidden]
    rcases within with rfl | rfl <;> exact ⟨rfl, rfl⟩
  · rw [same]
    rcases within with rfl | rfl <;> simp_all [step, inside, Quote.char, balance, weight, inCode]

theorem read_escapeChars (cs : List Char) :
    State.after (.literal .single false) (escapeChars cs) = .literal .single false
      ∧ State.balance (.literal .single false) (escapeChars cs) = 0 := by
  induction cs with
  | nil => exact ⟨rfl, rfl⟩
  | cons c cs ih =>
    obtain ⟨next, weightless⟩ := read_escapeChar (.inr rfl) c
    rw [escapeChars, List.flatMap_cons, after_append, balance_append, next, weightless]
    exact ⟨ih.1, by rw [← escapeChars, ih.2]; rfl⟩

/-- A literal read from code leads back to code, and none of its braces is one of code. -/
theorem read_literal (s : String) :
    (State.code.after (Source.literal s).toList).inCode = true ∧ State.code.balance (Source.literal s).toList = 0 := by
  have opens : State.code.step '\'' = .opened .single := rfl
  rw [Source.literal, String.toList_ofList, List.cons_append, after_cons, balance, opens]
  rcases s.toList with _ | ⟨c, cs⟩
  · decide
  · obtain ⟨next, weightless⟩ := read_escapeChar (.inl rfl) c
    obtain ⟨stays, free⟩ := read_escapeChars cs
    rw [escapeChars, List.flatMap_cons, ← escapeChars, List.append_assoc, after_append, balance_append, next,
      weightless, after_append, balance_append, stays, free]
    decide

end State

theorem literal_flat (s : String) : '\n' ∉ (literal s).toList := by
  have escaped : ∀ c, '\n' ∉ escapeChar c := by
    intro c
    rcases escapeChar_cases c with ⟨d, notFeed, hidden⟩ | ⟨solid, same⟩
    · simp [hidden, notFeed.symm]
    · rw [same, List.mem_singleton]
      rintro rfl
      exact solid (by decide)
  rw [literal, String.toList_ofList]
  simp [escapeChars, escaped]

/-- Between plain texts a literal is plain. -/
theorem Plain.quoted {a b : String} {d e : Int} (left : Plain a d) (s : String) (right : Plain b e) :
    Plain (a ++ literal s ++ b) (d + e) := by
  obtain ⟨ready, balanced⟩ := State.read_literal s
  refine ⟨?_, ?_, ?_⟩
  · simp only [String.toList_append, List.mem_append, not_or]
    exact ⟨⟨left.flat, literal_flat s⟩, right.flat⟩
  · intro t inCode
    rw [String.toList_append, String.toList_append, State.after_append, State.after_append, left.after t inCode]
    exact right.after _ ready
  · intro t inCode
    rw [String.toList_append, String.toList_append, State.balance_append, State.balance_append, State.after_append,
      left.after t inCode, left.balance t inCode, balanced, right.balance _ ready]
    omega

/-- A draft that goes on with a literal and a fixed text. -/
theorem Draft.quote {a : String} {x : Option Int} {l : List Char} (left : Draft a x) {s : String} :
    Draft (a ++ literal s ++ String.ofList l) (total x (tally l)) := by
  intro n same
  obtain ⟨d, first, last⟩ := Option.bind_eq_some_iff.mp same
  obtain ⟨e, second, rfl⟩ := Option.map_eq_some_iff.mp last
  exact (left d first).quoted s (Draft.fixed.plain second)

/-- What a plain text says of a closed one is closed. -/
theorem Closed.append {a text : String} (left : Plain a 0) (closed : Closed text) : Closed (a ++ Text.trim text) := by
  have line : Line (a ++ Text.trim text) 0 := left.append_line closed.line
  refine Line.closed ?_
  rcases ends : (Text.trim text).toList.getLast? with _ | c
  · have empty : Text.trim text = "" := by simpa using ends
    rw [empty, String.append_empty] at line ⊢
    exact line.trim left.flat
  · refine line.trim_of_last (c := c) ?_ (Text.not_isBlank_getLast_trim ends)
    rw [String.toList_append, List.getLast?_append, ends]
    rfl

end TemplateWeaver.Source
