import TemplateWeaver.Proofs.Source.Closed
import TemplateWeaver.Proofs.Source.Lexer
import TemplateWeaver.Source.ClassHead

/-!
Class heads, and the search for the first of them. A class head is given by what it reads (`ClassHead`). The search
ends at the first class head of a text, and finds nothing exactly if there is none (`classBodyOffset?_first`,
`classBodyOffset?_eq_none_iff`). A brace that masking leaves is a token of code by itself (`exists_brace_token`), so
the brace of a class head in masked text is no part of a comment or a literal.
-/
namespace TemplateWeaver.Source

open Text (byteSize)

/-! ### Class heads -/

/-- A class head for `name` in a text: the word `class`, blank characters, the name, and all up to the first brace
    behind the name. -/
structure ClassHead (name text : List Char) where
  /-- What stands ahead of `class`. -/
  before : List Char
  /-- The blank characters behind `class`. -/
  gap : List Char
  /-- What stands between the name and the brace. -/
  tail : List Char
  /-- What follows the brace. -/
  body : List Char
  reads : text = before ++ "class".toList ++ gap ++ name ++ tail ++ ['{'] ++ body
  apart : ∀ c ∈ before.getLast?, Text.isWordChar c = false ∧ c ≠ '$' ∧ c ≠ '.'
  parted : gap ≠ []
  blank : ∀ c ∈ gap, Text.isBlank c = true
  ends : ∀ c ∈ tail.head?, Text.isWordChar c = false ∧ c ≠ '$'
  first : '{' ∉ tail

namespace ClassHead

variable {name text : List Char}

/-- The byte offset just behind the brace. -/
def stop (head : ClassHead name text) : Nat :=
  byteSize (head.before ++ "class".toList ++ head.gap ++ name ++ head.tail ++ ['{'])

/-- No other class head begins further ahead. -/
def IsFirst (head : ClassHead name text) : Prop :=
  ∀ other : ClassHead name text, head.before.length ≤ other.before.length

theorem exists_isFirst (some : Nonempty (ClassHead name text)) : ∃ head : ClassHead name text, head.IsFirst := by
  obtain ⟨head⟩ := some
  generalize size : head.before.length = n
  induction n using Nat.strongRecOn generalizing head with
  | _ n ih =>
    by_cases least : head.IsFirst
    · exact ⟨head, least⟩
    · rw [IsFirst, not_forall] at least
      obtain ⟨other, earlier⟩ := least
      exact ih _ (by omega) other rfl

theorem body_size (head : ClassHead name text) : byteSize text - byteSize head.body = head.stop := by
  have sizes := congrArg byteSize head.reads
  rw [Text.byteSize_append] at sizes
  rw [sizes, Nat.add_sub_cancel]
  rfl

end ClassHead

theorem isNamePart_eq_false {c : Char} : isNamePart c = false ↔ Text.isWordChar c = false ∧ c ≠ '$' := by
  simp [isNamePart]

/-! ### The parts of a class head -/

theorem afterBrace?_eq_some_iff {cs body : List Char} :
    afterBrace? cs = some body ↔ ∃ tail, '{' ∉ tail ∧ cs = tail ++ '{' :: body := by
  induction cs with
  | nil => simp [afterBrace?]
  | cons c cs ih =>
    by_cases brace : c = '{'
    · subst brace
      constructor
      · intro found
        exact ⟨[], by simp, by simpa [afterBrace?] using found⟩
      · rintro ⟨_ | ⟨d, tail⟩, free, split⟩
        · simpa [afterBrace?] using split
        · obtain ⟨rfl, -⟩ := List.cons.inj split
          simp at free
    · rw [afterBrace?.eq_3 _ _ brace, ih]
      constructor
      · rintro ⟨tail, free, rfl⟩
        exact ⟨c :: tail, by simp [free, Ne.symm brace], rfl⟩
      · rintro ⟨_ | ⟨d, tail⟩, free, split⟩
        · obtain ⟨rfl, -⟩ := List.cons.inj split
          exact absurd rfl brace
        · obtain ⟨rfl, rfl⟩ := List.cons.inj split
          exact ⟨tail, fun member => free (List.mem_cons_of_mem _ member), rfl⟩

/-- Behind the class name the brace comes at once, or behind a character that ends the name. -/
theorem classBody?_eq_some_iff {cs body : List Char} :
    classBody? cs = some body ↔
      ∃ tail, '{' ∉ tail ∧ (∀ c ∈ tail.head?, isNamePart c = false) ∧ cs = tail ++ '{' :: body := by
  cases cs with
  | nil => simp [classBody?]
  | cons c cs =>
    have brace : isNamePart '{' = false := by decide +kernel
    rw [classBody?]
    split
    · rename_i part
      constructor
      · intro found
        cases found
      · rintro ⟨_ | ⟨d, tail⟩, -, ends, split⟩
        · obtain ⟨rfl, -⟩ := List.cons.inj split
          rw [brace] at part
          cases part
        · obtain ⟨rfl, -⟩ := List.cons.inj split
          rw [ends c rfl] at part
          cases part
    · rename_i part
      rw [afterBrace?_eq_some_iff]
      constructor
      · rintro ⟨tail, free, split⟩
        refine ⟨tail, free, ?_, split⟩
        intro d head
        obtain ⟨rest, rfl⟩ := List.head?_eq_some_iff.mp head
        obtain ⟨rfl, -⟩ := List.cons.inj split
        exact Bool.eq_false_iff.mpr part
      · rintro ⟨tail, free, -, split⟩
        exact ⟨tail, free, split⟩

/-- Of the blank characters some are passed over, one at least. -/
theorem bodyAfterBlanks?_eq_some {name cs body : List Char} {blanks : Nat}
    (found : bodyAfterBlanks? name blanks cs = some body) :
    ∃ taken, taken ≠ 0 ∧ taken ≤ blanks ∧ (Text.dropWord? name (cs.drop taken)).bind classBody? = some body := by
  induction blanks with
  | zero => simp [bodyAfterBlanks?] at found
  | succ blanks ih =>
    rw [bodyAfterBlanks?] at found
    split at found
    · rename_i rest opens
      cases found
      exact ⟨blanks + 1, by omega, Nat.le_refl _, opens⟩
    · obtain ⟨taken, passed, bound, opens⟩ := ih found
      exact ⟨taken, passed, by omega, opens⟩

theorem bodyAfterBlanks?_isSome {name cs body : List Char} {blanks taken : Nat} (passed : taken ≠ 0)
    (bound : taken ≤ blanks) (opens : (Text.dropWord? name (cs.drop taken)).bind classBody? = some body) :
    (bodyAfterBlanks? name blanks cs).isSome = true := by
  induction blanks with
  | zero => omega
  | succ blanks ih =>
    rw [bodyAfterBlanks?]
    split
    · rfl
    · rename_i missed
      refine ih ?_
      by_cases last : taken = blanks + 1
      · subst last
        rw [missed] at opens
        cases opens
      · omega

/-- What a class head at the beginning of a text reads. -/
theorem classHead?_eq_some {name cs body : List Char} (found : classHead? name cs = some body) :
    ∃ gap tail, gap ≠ [] ∧ (∀ c ∈ gap, Text.isBlank c = true) ∧ (∀ c ∈ tail.head?, isNamePart c = false) ∧
      '{' ∉ tail ∧ cs = "class".toList ++ gap ++ name ++ tail ++ ['{'] ++ body := by
  obtain ⟨rest, begins, opens⟩ := Option.bind_eq_some_iff.mp found
  obtain ⟨taken, passed, bound, names⟩ := bodyAfterBlanks?_eq_some opens
  obtain ⟨behind, named, closes⟩ := Option.bind_eq_some_iff.mp names
  obtain ⟨tail, free, ends, split⟩ := classBody?_eq_some_iff.mp closes
  rw [Text.dropWord?_eq_some_iff] at begins named
  have blanks : rest.take taken <+: rest.takeWhile Text.isBlank :=
    List.prefix_of_prefix_length_le (List.take_prefix _ _) (List.takeWhile_prefix _) (by simp; omega)
  have whole : rest = rest.take taken ++ (name ++ (tail ++ '{' :: body)) := by
    rw [← split, ← named, List.take_append_drop]
  refine ⟨rest.take taken, tail, ?_, ?_, ends, free, ?_⟩
  · intro empty
    rcases List.take_eq_nil_iff.mp empty with none | none
    · exact passed none
    · simp [none] at bound
      omega
  · intro c member
    exact List.mem_takeWhile_imp (blanks.subset member)
  · rw [begins]
    nth_rewrite 1 [whole]
    simp

/-- A class head is seen where it begins. -/
theorem classHead?_isSome {name gap tail body : List Char} (parted : gap ≠ [])
    (blank : ∀ c ∈ gap, Text.isBlank c = true) (ends : ∀ c ∈ tail.head?, isNamePart c = false) (free : '{' ∉ tail) :
    (classHead? name ("class".toList ++ gap ++ name ++ tail ++ ['{'] ++ body)).isSome = true := by
  have begins : Text.dropWord? "class".toList ("class".toList ++ gap ++ name ++ tail ++ ['{'] ++ body)
      = some (gap ++ (name ++ (tail ++ '{' :: body))) := by
    rw [Text.dropWord?_eq_some_iff]
    simp
  have named : Text.dropWord? name ((gap ++ (name ++ (tail ++ '{' :: body))).drop gap.length)
      = some (tail ++ '{' :: body) := by
    rw [Text.dropWord?_eq_some_iff, List.drop_left]
  have closes : classBody? (tail ++ '{' :: body) = some body := classBody?_eq_some_iff.mpr ⟨tail, free, ends, rfl⟩
  have bound : gap.length ≤ ((gap ++ (name ++ (tail ++ '{' :: body))).takeWhile Text.isBlank).length := by
    rw [List.takeWhile_append_of_pos blank, List.length_append]
    exact Nat.le_add_right ..
  rw [classHead?, begins]
  exact bodyAfterBlanks?_isSome (by simpa using parted) bound (by rw [named, Option.bind_some, closes])

/-! ### The search -/

/-- The class body if the search ends here; `before` is the character ahead of the text. -/
def headHere? (name : List Char) (before : Option Char) (cs : List Char) : Option (List Char) :=
  if before.all fun b => !isNamePart b && b != '.' then classHead? name cs else none

theorem findClassHead?_cons (name : List Char) (before : Option Char) (c : Char) (cs : List Char) :
    findClassHead? name before (c :: cs)
      = (headHere? name before (c :: cs)).or (findClassHead? name (some c) cs) := by
  rw [findClassHead?, headHere?]
  rcases classHead? name (c :: cs) with _ | body
  · simp
  · simp only
    split <;> rfl

section
variable {name text ahead cs body : List Char}

theorem exists_classHead (split : text = ahead ++ cs) (here : headHere? name ahead.getLast? cs = some body) :
    ∃ head : ClassHead name text, head.before = ahead ∧ head.body = body := by
  obtain ⟨apart, found⟩ := Option.ite_none_right_eq_some.mp here
  obtain ⟨gap, tail, parted, blank, ends, free, rfl⟩ := classHead?_eq_some found
  refine ⟨{ before := ahead, gap, tail, body, parted, blank, first := free
            reads := by rw [split]; simp
            apart := ?_
            ends := fun c member => isNamePart_eq_false.mp (ends c member) }, rfl, rfl⟩
  intro c last
  rw [Option.mem_def] at last
  rw [last, Option.all_some] at apart
  simp only [Bool.and_eq_true, Bool.not_eq_true', bne_iff_ne, ne_eq, isNamePart_eq_false] at apart
  exact ⟨apart.1.1, apart.1.2, apart.2⟩

/-- The search sees a class head when it comes to it. -/
theorem ClassHead.seen (head : ClassHead name text) (split : text = ahead ++ cs)
    (here : head.before.length = ahead.length) : (headHere? name ahead.getLast? cs).isSome = true := by
  have whole : ahead ++ cs
      = head.before ++ ("class".toList ++ head.gap ++ name ++ head.tail ++ ['{'] ++ head.body) :=
    split.symm.trans (head.reads.trans (by simp))
  obtain ⟨same, rfl⟩ := List.append_inj whole here.symm
  have apart : (ahead.getLast?.all fun b => !isNamePart b && b != '.') = true := by
    rw [same]
    rcases last : head.before.getLast? with _ | c
    · rfl
    · obtain ⟨word, dollar, dot⟩ := head.apart c last
      simp [isNamePart, word, dollar, dot]
  rw [headHere?, if_pos apart]
  exact classHead?_isSome head.parted head.blank (fun c member => isNamePart_eq_false.mpr (head.ends c member))
    head.first

/-- If the search finds nothing, there is no class head ahead of it. -/
theorem findClassHead?_none (split : text = ahead ++ cs) (missed : findClassHead? name ahead.getLast? cs = none)
    (head : ClassHead name text) : head.before.length < ahead.length := by
  induction cs generalizing ahead with
  | nil =>
    have sizes := congrArg List.length (split.symm.trans head.reads)
    simp at sizes
    omega
  | cons c cs ih =>
    rw [findClassHead?_cons, Option.or_eq_none_iff] at missed
    have elsewhere : head.before.length ≠ ahead.length := by
      intro here
      have seen := head.seen split here
      simp [missed.1] at seen
    have further := @ih (ahead ++ [c]) (by rw [split]; simp) (by simpa using missed.2)
    rw [List.length_append, List.length_singleton] at further
    omega

/-- The search ends at the first class head ahead of it. -/
theorem findClassHead?_some (split : text = ahead ++ cs) (found : findClassHead? name ahead.getLast? cs = some body) :
    ∃ head : ClassHead name text, head.body = body ∧
      ∀ other : ClassHead name text, other.before.length < head.before.length → other.before.length < ahead.length := by
  induction cs generalizing ahead with
  | nil => cases found
  | cons c cs ih =>
    rw [findClassHead?_cons, Option.or_eq_some_iff] at found
    rcases found with here | ⟨missed, later⟩
    · obtain ⟨head, rfl, rfl⟩ := exists_classHead split here
      exact ⟨head, rfl, fun other earlier => earlier⟩
    · obtain ⟨head, rfl, least⟩ := @ih (ahead ++ [c]) (by rw [split]; simp) (by simpa using later)
      refine ⟨head, rfl, fun other earlier => ?_⟩
      have elsewhere : other.before.length ≠ ahead.length := by
        intro here
        have seen := other.seen split here
        simp [missed] at seen
      have further := least other earlier
      rw [List.length_append, List.length_singleton] at further
      omega

end

theorem exists_first_of_classBodyOffset? {name masked : String} {offset : Nat}
    (found : classBodyOffset? name masked = some offset) :
    ∃ head : ClassHead name.toList masked.toList, head.IsFirst ∧ head.stop = offset := by
  obtain ⟨body, opens, size⟩ := Option.map_eq_some_iff.mp found
  have split : masked.toList = [] ++ masked.toList := rfl
  obtain ⟨head, rfl, least⟩ := findClassHead?_some split opens
  refine ⟨head, ?_, by rw [← head.body_size, size]⟩
  intro other
  refine Nat.le_of_not_lt fun earlier => ?_
  exact absurd (least other earlier) (Nat.not_lt_zero _)

/-- A class body stands behind a brace. -/
theorem exists_brace_of_classBodyOffset? {name masked : String} {offset : Nat}
    (found : classBodyOffset? name masked = some offset) :
    ∃ shown body, masked.toList = shown ++ '{' :: body ∧ byteSize (shown ++ ['{']) = offset := by
  obtain ⟨head, -, stop⟩ := exists_first_of_classBodyOffset? found
  exact ⟨_, head.body, head.reads.trans (by simp), stop⟩

/-- The search for a class body fails exactly if the text has no class head. -/
theorem classBodyOffset?_eq_none_iff (name masked : String) :
    classBodyOffset? name masked = none ↔ IsEmpty (ClassHead name.toList masked.toList) := by
  constructor
  · intro missed
    refine ⟨fun head => ?_⟩
    have split : masked.toList = [] ++ masked.toList := rfl
    have beyond := findClassHead?_none split (Option.map_eq_none_iff.mp missed) head
    exact absurd beyond (Nat.not_lt_zero _)
  · intro none
    rcases found : classBodyOffset? name masked with _ | offset
    · rfl
    · obtain ⟨head, -⟩ := exists_first_of_classBodyOffset? found
      exact none.elim head

/-! ### One brace for a place -/

section
variable {name text : List Char} {c : Char}

/-- With a name that does not begin with a blank character, where a class head begins says where its brace is. -/
theorem ClassHead.stop_eq (solid : name.head? = some c) (visible : Text.isBlank c = false)
    {head other : ClassHead name text} (here : head.before.length = other.before.length) : head.stop = other.stop := by
  obtain ⟨letters, rfl⟩ := List.head?_eq_some_iff.mp solid
  have blanks : ∀ (head : ClassHead (c :: letters) text) (more : List Char),
      (head.gap ++ c :: more).takeWhile Text.isBlank = head.gap := by
    intro head more
    rw [List.takeWhile_append_of_pos head.blank]
    simp [visible]
  have whole : ∀ head : ClassHead (c :: letters) text, text
      = head.before ++ ("class".toList ++ (head.gap ++ c :: (letters ++ (head.tail ++ '{' :: head.body)))) :=
    fun head => head.reads.trans (by simp)
  obtain ⟨-, behind⟩ := List.append_inj ((whole head).symm.trans (whole other)) here
  have rest := List.append_cancel_left behind
  have gap : head.gap = other.gap := by
    have runs := congrArg (List.takeWhile Text.isBlank) rest
    rwa [blanks, blanks] at runs
  rw [gap] at rest
  have tails := List.append_cancel_left (List.cons.inj (List.append_cancel_left rest)).2
  have body : head.body = other.body := by
    have mine : afterBrace? (head.tail ++ '{' :: head.body) = some head.body :=
      afterBrace?_eq_some_iff.mpr ⟨head.tail, head.first, rfl⟩
    rw [afterBrace?_eq_some_iff.mpr ⟨other.tail, other.first, tails⟩] at mine
    exact (Option.some.inj mine).symm
  rw [← head.body_size, ← other.body_size, body]

end

/-- The search for a class body finds the brace of the first class head. -/
theorem classBodyOffset?_first {name masked : String} (legal : isMemberName name = true)
    {head : ClassHead name.toList masked.toList} (least : head.IsFirst) :
    classBodyOffset? name masked = some head.stop := by
  rcases found : classBodyOffset? name masked with _ | offset
  · exact ((classBodyOffset?_eq_none_iff name masked).mp found).elim head
  · obtain ⟨other, first, rfl⟩ := exists_first_of_classBodyOffset? found
    have same : head.before.length = other.before.length := Nat.le_antisymm (least other) (first head)
    rw [isMemberName] at legal
    split at legal
    · cases legal
    · rename_i c rest letters
      rw [Bool.and_eq_true] at legal
      rw [ClassHead.stop_eq (by rw [letters]; rfl) (not_isBlank_of_isNameStart (.inl legal.1)) same]

/-! ### The brace in the text itself -/

theorem not_mem_cover (cs : List Char) : '{' ∉ cs.flatMap State.cover := by
  intro member
  obtain ⟨c, -, covered⟩ := List.mem_flatMap.mp member
  rw [State.cover] at covered
  split at covered
  · rename_i feed
    simp [feed] at covered
  · simp at covered

theorem Token.eq_code_of_brace (token : Token) (shown : '{' ∈ token.masked) : token = .code '{' := by
  cases token with
  | code c =>
    obtain rfl := List.mem_singleton.mp shown
    rfl
  | lineComment inside => exact absurd shown (not_mem_cover _)
  | blockComment inside => exact absurd shown (not_mem_cover _)
  | literal quote triple inside closed =>
    have quotes : '{' ∉ delimiter quote triple := by cases quote <;> cases triple <;> decide
    have outside : '{' ∉ if closed then delimiter quote triple else [] := by cases closed <;> simp [quotes]
    rw [Token.masked, List.mem_append, List.mem_append] at shown
    rcases shown with (opening | inner) | closing
    · exact absurd opening quotes
    · exact absurd inner (not_mem_cover inside)
    · exact absurd closing outside

/-- A brace that masking leaves is a token of code. -/
theorem exists_brace_token {tokens : List Token} {shown more : List Char}
    (masked : tokens.flatMap Token.masked = shown ++ '{' :: more) :
    ∃ front back, tokens = front ++ .code '{' :: back ∧ front.flatMap Token.masked = shown := by
  induction tokens generalizing shown with
  | nil => simp at masked
  | cons token tokens ih =>
    rw [List.flatMap_cons] at masked
    rcases List.append_eq_append_iff.mp masked with ⟨later, rfl, rest⟩ | ⟨_ | ⟨e, early⟩, written, rest⟩
    · obtain ⟨front, back, rfl, shows⟩ := ih rest
      exact ⟨token :: front, back, rfl, by rw [List.flatMap_cons, shows]⟩
    · rw [List.append_nil] at written
      obtain ⟨front, back, rfl, shows⟩ := @ih [] rest.symm
      exact ⟨token :: front, back, rfl, by rw [List.flatMap_cons, shows, written, List.append_nil]⟩
    · obtain ⟨rfl, -⟩ := List.cons.inj rest
      obtain rfl := token.eq_code_of_brace (by simp [written])
      obtain ⟨rfl, -⟩ := List.append_eq_singleton_iff.mp written.symm |>.resolve_right (by simp)
      exact ⟨[], tokens, rfl, rfl⟩

end TemplateWeaver.Source
