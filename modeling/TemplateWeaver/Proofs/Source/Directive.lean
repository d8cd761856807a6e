import Mathlib.Data.List.TakeWhile
import TemplateWeaver.Proofs.Source.Blanking
import TemplateWeaver.Source.Library

/-!
The leading library directive. `ReadsDirective` says how a line with a directive reads, apart from how it
is looked for, and `LeadsAt` that such a line leads a masked text. The search looks at the first line that
reads so and at nothing behind it; a line that leads the text is always that one (`directiveSpan?_leading`),
for the lines before it are blank. Masking keeps the lines of a text (`Blanked.split_line`), so the line is
cut out of the text itself as it stands (`lineAt_of_findDirective`).
-/
namespace TemplateWeaver.Source

open Text (byteSize)

/-! ### Lines -/

/-- A line begins behind the text. -/
def StartsLine (before : List Char) : Prop :=
  before = [] ∨ before.getLast? = some '\n'

/-- `line` is the first line of a text and `rest` what follows it; the line feed is part of the line. -/
def IsLine (line rest : List Char) : Prop :=
  (∃ body, '\n' ∉ body ∧ line = body ++ ['\n']) ∨ ('\n' ∉ line ∧ rest = [])

theorem isLine_firstLine (cs : List Char) : ∃ rest, cs = firstLine cs ++ rest ∧ IsLine (firstLine cs) rest := by
  induction cs with
  | nil => exact ⟨[], rfl, .inr ⟨by simp [firstLine], rfl⟩⟩
  | cons c cs ih =>
    by_cases isFeed : c = '\n'
    · subst isFeed
      exact ⟨cs, rfl, .inl ⟨[], by simp, rfl⟩⟩
    · obtain ⟨rest, split, line⟩ := ih
      rw [firstLine.eq_3 _ _ isFeed]
      refine ⟨rest, by rw [List.cons_append, ← split], ?_⟩
      rcases line with ⟨body, flat, ended⟩ | ⟨flat, last⟩
      · exact .inl ⟨c :: body, by simpa [eq_comm, isFeed] using flat, by rw [ended, List.cons_append]⟩
      · exact .inr ⟨by simpa [eq_comm, isFeed] using flat, last⟩

theorem firstLine_append {flat : List Char} (noFeed : '\n' ∉ flat) (cs : List Char) :
    firstLine (flat ++ cs) = flat ++ firstLine cs := by
  induction flat with
  | nil => rfl
  | cons c flat ih =>
    have other : c ≠ '\n' := fun same => noFeed (by simp [same])
    rw [List.cons_append, firstLine.eq_3 _ _ other, ih fun member => noFeed (by simp [member]), List.cons_append]

/-! ### How a directive reads -/

/-- `library`, a dotted name and a semicolon, with spaces and tabs between them and before the first. -/
inductive ReadsDirective : List Char → Prop
  | intro {indent gap name spaces rest : List Char} {first : Char}
    (blankIndent : ∀ c ∈ indent, isTabOrSpace c = true)
    (someGap : gap ≠ []) (blankGap : ∀ c ∈ gap, isTabOrSpace c = true)
    (begins : first.isAlpha = true ∨ first = '_')
    (named : ∀ c ∈ name, Text.isWordChar c = true ∨ c = '.')
    (blankSpaces : ∀ c ∈ spaces, isTabOrSpace c = true) :
    ReadsDirective (indent ++ ("library".toList ++ (gap ++ first :: (name ++ (spaces ++ ';' :: rest)))))

theorem isTabOrSpace_iff {c : Char} : isTabOrSpace c = true ↔ c = ' ' ∨ c = '\t' := by
  simp [isTabOrSpace]

/-- Where spaces and tabs end, dropping them stops. -/
theorem dropWhile_isTabOrSpace {spaces rest : List Char} {c : Char} (blank : ∀ d ∈ spaces, isTabOrSpace d = true)
    (solid : isTabOrSpace c = false) : (spaces ++ c :: rest).dropWhile isTabOrSpace = c :: rest := by
  rw [List.dropWhile_append_of_pos blank, List.dropWhile_cons_of_neg (by simp [solid])]

theorem isTabOrSpace_of_begins {c : Char} (begins : c.isAlpha = true ∨ c = '_') : isTabOrSpace c = false := by
  rw [← Bool.not_eq_true, isTabOrSpace_iff]
  rintro (rfl | rfl) <;> revert begins <;> decide

theorem dropWhile_name {name spaces rest : List Char} (named : ∀ c ∈ name, Text.isWordChar c = true ∨ c = '.')
    (blank : ∀ c ∈ spaces, isTabOrSpace c = true) :
    (name ++ (spaces ++ ';' :: rest)).dropWhile (fun e => Text.isWordChar e || e == '.') = spaces ++ ';' :: rest := by
  rw [List.dropWhile_append_of_pos (by simpa using named)]
  cases spaces with
  | nil => exact List.dropWhile_cons_of_neg (by decide)
  | cons c spaces =>
    refine List.dropWhile_cons_of_neg ?_
    rcases isTabOrSpace_iff.mp (blank c (by simp)) with rfl | rfl <;> decide

theorem startsWithDirective_of_reads {cs : List Char} (reads : ReadsDirective cs) : startsWithDirective cs = true := by
  cases reads with
  | @intro indent gap name spaces rest first blankIndent someGap blankGap begins named blankSpaces =>
    obtain ⟨c, gap, rfl⟩ := List.exists_cons_of_ne_nil someGap
    have indented : (indent ++ ("library".toList ++ (c :: gap ++ first :: (name ++ (spaces ++ ';' :: rest))))).dropWhile
        isTabOrSpace = "library".toList ++ (c :: (gap ++ first :: (name ++ (spaces ++ ';' :: rest)))) :=
      dropWhile_isTabOrSpace blankIndent rfl
    have word := Text.dropWord?_eq_some_iff.mpr indented
    have gapped : (gap ++ first :: (name ++ (spaces ++ ';' :: rest))).dropWhile isTabOrSpace
        = first :: (name ++ (spaces ++ ';' :: rest)) :=
      dropWhile_isTabOrSpace (fun d member => blankGap d (by simp [member])) (isTabOrSpace_of_begins begins)
    have spaced : (spaces ++ ';' :: rest).dropWhile isTabOrSpace = ';' :: rest :=
      dropWhile_isTabOrSpace blankSpaces rfl
    simp only [startsWithDirective, word, gapped, dropWhile_name named blankSpaces, spaced]
    simpa using ⟨blankGap c (by simp), begins⟩

theorem reads_of_startsWithDirective {cs : List Char} (starts : startsWithDirective cs = true) : ReadsDirective cs := by
  have blank : ∀ {l : List Char}, ∀ c ∈ l.takeWhile isTabOrSpace, isTabOrSpace c = true :=
    fun c member => List.mem_takeWhile_imp member
  rw [startsWithDirective] at starts
  rcases word : Text.dropWord? "library".toList (cs.dropWhile isTabOrSpace) with _ | _ | ⟨c, tail⟩
  · rw [word] at starts
    cases starts
  · rw [word] at starts
    cases starts
  rcases gapped : tail.dropWhile isTabOrSpace with _ | ⟨first, behind⟩
  · simp only [word, gapped, Bool.and_false, Bool.false_eq_true] at starts
  simp only [word, gapped, Bool.and_eq_true, Bool.or_eq_true, beq_iff_eq] at starts
  obtain ⟨gap, begins, ended⟩ := starts
  obtain ⟨rest, closed⟩ := List.head?_eq_some_iff.mp ended
  -- Each part is what one of the searches passes over, and the next one begins where it stops.
  have split : cs = cs.takeWhile isTabOrSpace ++ ("library".toList ++ (c :: tail.takeWhile isTabOrSpace ++ first ::
      (behind.takeWhile (fun e => Text.isWordChar e || e == '.')
        ++ ((behind.dropWhile fun e => Text.isWordChar e || e == '.').takeWhile isTabOrSpace ++ ';' :: rest)))) := by
    rw [← closed, List.takeWhile_append_dropWhile, List.takeWhile_append_dropWhile, ← gapped, List.cons_append,
      List.takeWhile_append_dropWhile, ← Text.dropWord?_eq_some_iff.mp word, List.takeWhile_append_dropWhile]
  rw [split]
  refine .intro blank (by simp) ?_ begins ?_ blank
  · intro d member
    rcases List.mem_cons.mp member with rfl | inside
    · exact gap
    · exact blank d inside
  · intro d member
    simpa using List.mem_takeWhile_imp member

theorem startsWithDirective_iff {cs : List Char} : startsWithDirective cs = true ↔ ReadsDirective cs :=
  ⟨reads_of_startsWithDirective, startsWithDirective_of_reads⟩

/-- What reads as a directive does so on its first line. -/
theorem ReadsDirective.firstLine {cs : List Char} (reads : ReadsDirective cs) : ReadsDirective (firstLine cs) := by
  cases reads with
  | @intro indent gap name spaces rest first blankIndent someGap blankGap begins named blankSpaces =>
    have flat : ∀ l : List Char, (∀ c ∈ l, isTabOrSpace c = true) → '\n' ∉ l := by
      intro l blank feed
      have := blank _ feed
      revert this
      decide
    have flatName : '\n' ∉ name := by
      intro feed
      have := named _ feed
      revert this
      decide
    have other : first ≠ '\n' := by
      rintro rfl
      revert begins
      decide
    rw [firstLine_append (flat _ blankIndent), firstLine_append (by decide), firstLine_append (flat _ blankGap),
      firstLine.eq_3 _ _ other, firstLine_append flatName, firstLine_append (flat _ blankSpaces),
      firstLine.eq_3 _ _ (by decide)]
    exact .intro blankIndent someGap blankGap begins named blankSpaces

theorem ReadsDirective.append {line : List Char} (reads : ReadsDirective line) (behind : List Char) :
    ReadsDirective (line ++ behind) := by
  cases reads with
  | intro blankIndent someGap blankGap begins named blankSpaces =>
    simpa using ReadsDirective.intro blankIndent someGap blankGap begins named blankSpaces

theorem readsDirective_firstLine_iff {cs : List Char} :
    ReadsDirective (firstLine cs) ↔ startsWithDirective cs = true := by
  rw [startsWithDirective_iff]
  constructor
  · intro reads
    obtain ⟨rest, split, -⟩ := isLine_firstLine cs
    rw [split]
    exact reads.append rest
  · exact ReadsDirective.firstLine

/-! ### The search -/

/-- The search stops at the beginning of a line that holds a directive. -/
theorem findDirective_eq {start p q : Nat} {fresh : Bool} {cs : List Char}
    (found : findDirective start fresh cs = some (p, q)) :
    ∃ before behind, cs = before ++ behind ∧ (before = [] ∧ fresh = true ∨ before.getLast? = some '\n')
      ∧ startsWithDirective behind = true ∧ p = start + byteSize before
      ∧ q = start + byteSize (before ++ firstLine behind) := by
  induction cs generalizing start fresh with
  | nil => simp [findDirective] at found
  | cons c cs ih =>
    rw [findDirective] at found
    split at found
    · rename_i here
      rw [Bool.and_eq_true] at here
      obtain ⟨rfl, rfl⟩ := Prod.mk.inj (Option.some.inj found)
      exact ⟨[], c :: cs, rfl, .inl ⟨rfl, here.1⟩, here.2, rfl, rfl⟩
    · obtain ⟨before, behind, rfl, line, starts, rfl, rfl⟩ := ih found
      refine ⟨c :: before, behind, rfl, .inr ?_, starts, ?_, ?_⟩
      · rcases line with ⟨rfl, feed⟩ | ended
        · simpa using feed
        · rw [List.getLast?_cons, ended]
          rfl
      · rw [Text.byteSize_cons, Nat.add_assoc]
      · rw [List.cons_append, Text.byteSize_cons, Nat.add_assoc]

/-- No directive begins on a line that is blank up to its end. -/
theorem startsWithDirective_blank {blanks : List Char} (blank : ∀ c ∈ blanks, Text.isBlank c = true)
    (ended : blanks.getLast? = some '\n') (cs : List Char) : startsWithDirective (blanks ++ cs) = false := by
  obtain ⟨body, tail, rfl, flat⟩ := List.eq_append_cons_of_mem (List.mem_of_getLast? ended)
  have line : firstLine (body ++ '\n' :: tail ++ cs) = body ++ ['\n'] := by
    rw [List.append_assoc, firstLine_append flat]
    rfl
  rw [← Bool.not_eq_true, ← readsDirective_firstLine_iff, line]
  intro reads
  have solid : 'l' ∈ body ++ ['\n'] := by
    generalize body ++ ['\n'] = line at reads
    cases reads
    simp
  have among : 'l' ∈ body := by simpa using solid
  have := blank 'l' (by simp [among])
  revert this
  decide

/-- Behind blank lines the search finds the directive that it comes upon. -/
theorem findDirective_blank (start : Nat) (fresh : Bool) {before behind : List Char}
    (blank : ∀ c ∈ before, Text.isBlank c = true) (starts : startsWithDirective behind = true)
    (line : before = [] ∧ fresh = true ∨ before.getLast? = some '\n') :
    findDirective start fresh (before ++ behind)
      = some (start + byteSize before, start + byteSize (before ++ firstLine behind)) := by
  induction before generalizing start fresh with
  | nil =>
    obtain ⟨-, rfl⟩ : True ∧ fresh = true := by simpa using line
    cases behind with
    | nil => simp [startsWithDirective, Text.dropWord?] at starts
    | cons c behind => simp [findDirective, starts]
  | cons c before ih =>
    have ended : (c :: before).getLast? = some '\n' := by simpa using line
    have none := startsWithDirective_blank blank ended behind
    have next : before = [] ∧ (c == '\n') = true ∨ before.getLast? = some '\n' := by
      cases before with
      | nil => exact .inl ⟨rfl, by simpa using ended⟩
      | cons d before => exact .inr (by simpa using ended)
    rw [List.cons_append] at none ⊢
    rw [findDirective, none, Bool.and_false, if_neg Bool.false_ne_true,
      ih _ _ (fun d member => blank d (by simp [member])) next]
    simp [Nat.add_assoc]

/-! ### The leading directive -/

/-- A line with a directive begins at byte `p` of a masked text, and nothing but blank characters stands
    before it. -/
def LeadsAt (masked : String) (p : Nat) : Prop :=
  ∃ before behind, masked.toList = before ++ behind ∧ byteSize before = p ∧ StartsLine before
    ∧ (∀ c ∈ before, Text.isBlank c = true) ∧ ReadsDirective (firstLine behind)

theorem directiveSpan?_eq_some {masked : String} {p q : Nat} (span : directiveSpan? masked = some (p, q)) :
    findDirective 0 true masked.toList = some (p, q) ∧ LeadsAt masked p := by
  rw [directiveSpan?] at span
  rcases found : findDirective 0 true masked.toList with _ | ⟨start, stop⟩
  · rw [found] at span
    cases span
  · rw [found] at span
    simp only at span
    split at span
    · rename_i blank
      obtain ⟨rfl, rfl⟩ := Prod.mk.inj (Option.some.inj span)
      obtain ⟨before, behind, split, line, starts, rfl, -⟩ := findDirective_eq found
      have cut : (Text.takeBytes masked (0 + byteSize before)).toList = before := by
        rw [Nat.zero_add, Text.takeBytes_of_split split, String.toList_ofList]
      refine ⟨rfl, before, behind, split, (Nat.zero_add _).symm, ?_, ?_, readsDirective_firstLine_iff.mpr starts⟩
      · exact line.imp_left And.left
      · rw [Text.allBlank, cut, List.all_eq_true] at blank
        exact blank
    · cases span

/-- A directive that leads the text is the first one that the search meets. -/
theorem directiveSpan?_leading {masked : String} {p : Nat} (leads : LeadsAt masked p) :
    ∃ q, directiveSpan? masked = some (p, q) := by
  obtain ⟨before, behind, split, rfl, line, blank, reads⟩ := leads
  have found := findDirective_blank 0 true blank (readsDirective_firstLine_iff.mp reads)
    (line.imp_left fun empty => ⟨empty, rfl⟩)
  have cut : (Text.takeBytes masked (byteSize before)).toList = before := by
    rw [Text.takeBytes_of_split split, String.toList_ofList]
  refine ⟨byteSize (before ++ firstLine behind), ?_⟩
  rw [directiveSpan?, split, found]
  simpa [Text.allBlank, cut] using blank

/-! ### Cutting the line out -/

/-- Where a line begins in the blanked text, one begins in the text. -/
theorem Blanked.split_start {cs before behind : List Char} (blanked : Blanked cs (before ++ behind))
    (line : StartsLine before) :
    ∃ front back, cs = front ++ back ∧ StartsLine front ∧ Blanked front before ∧ Blanked back behind := by
  rcases line with rfl | ended
  · exact ⟨[], cs, rfl, .inl rfl, .nil, blanked⟩
  · obtain ⟨shown, rfl⟩ := List.getLast?_eq_some_iff.mp ended
    rw [List.append_assoc] at blanked
    obtain ⟨front, back, rfl, shownFront, shownBack⟩ := blanked.split (by decide)
    exact ⟨front ++ ['\n'], back, by simp, .inr (by simp), shownFront.append (.keep _ .nil), shownBack⟩

/-- The first line of the blanked text is the first line of the text, blanked. -/
theorem Blanked.split_line {cs line behind : List Char} (blanked : Blanked cs (line ++ behind))
    (isLine : IsLine line behind) :
    ∃ here back, cs = here ++ back ∧ IsLine here back ∧ Blanked here line ∧ Blanked back behind := by
  rcases isLine with ⟨body, flat, rfl⟩ | ⟨flat, rfl⟩
  · rw [List.append_assoc] at blanked
    obtain ⟨front, back, rfl, shownFront, shownBack⟩ := blanked.split (by decide)
    have flatFront : '\n' ∉ front := fun feed => flat (shownFront.lineFeed_mem feed)
    exact ⟨front ++ ['\n'], back, by simp, .inl ⟨front, flatFront, rfl⟩, shownFront.append (.keep _ .nil), shownBack⟩
  · rw [List.append_nil] at blanked
    exact ⟨cs, [], by simp, .inr ⟨fun feed => flat (blanked.lineFeed_mem feed), rfl⟩, blanked, .nil⟩

/-- `line` is the whole line of a text between the bytes `p` and `q`. -/
structure LineAt (code : String) (p q : Nat) (front line back : List Char) : Prop where
  split : code.toList = front ++ (line ++ back)
  starts : StartsLine front
  isLine : IsLine line back
  start : byteSize front = p
  stop : byteSize (front ++ line) = q

/-- What the search finds in the masked text is a line of the text. -/
theorem lineAt_of_findDirective {code : String} {p q : Nat}
    (found : findDirective 0 true (mask code).toList = some (p, q)) :
    ∃ front line back, LineAt code p q front line back := by
  obtain ⟨before, behind, split, starts, -, rfl, rfl⟩ := findDirective_eq found
  obtain ⟨rest, lines, isLine⟩ := isLine_firstLine behind
  have blanked := mask_blanked code
  rw [split] at blanked
  obtain ⟨front, tail, splitCode, startsFront, shownFront, shownTail⟩ := blanked.split_start (starts.imp_left And.left)
  rw [lines] at shownTail
  obtain ⟨line, back, rfl, isLineHere, shownLine, -⟩ := shownTail.split_line isLine
  refine ⟨front, line, back, splitCode, startsFront, isLineHere, ?_, ?_⟩
  · rw [Nat.zero_add, shownFront.byteSize_eq]
  · rw [Nat.zero_add, (shownFront.append shownLine).byteSize_eq]

namespace LineAt

variable {code : String} {p q : Nat} {front line back : List Char}

theorem takeBytes_start (at_ : LineAt code p q front line back) : Text.takeBytes code p = String.ofList front := by
  rw [← at_.start, Text.takeBytes_of_split at_.split]

theorem split_stop (at_ : LineAt code p q front line back) : code.toList = (front ++ line) ++ back := by
  rw [at_.split, List.append_assoc]

theorem takeBytes_stop (at_ : LineAt code p q front line back) :
    Text.takeBytes code q = String.ofList (front ++ line) := by
  rw [← at_.stop, Text.takeBytes_of_split at_.split_stop]

theorem dropBytes_stop (at_ : LineAt code p q front line back) : Text.dropBytes code q = String.ofList back := by
  rw [← at_.stop, Text.dropBytes_of_split at_.split_stop]

/-- The split takes out the line that the search found. -/
theorem splitLibrary_eq (at_ : LineAt code p q front line back) (span : directiveSpan? (mask code) = some (p, q)) :
    splitLibrary code = (some (Text.trim (String.ofList line)), String.ofList (front ++ back)) := by
  have directive : Text.dropBytes (Text.takeBytes code q) p = String.ofList line := by
    rw [at_.takeBytes_stop, ← at_.start, Text.dropBytes_append]
  simp only [splitLibrary, span, directive, at_.takeBytes_start, at_.dropBytes_stop, String.ofList_append]

end LineAt

theorem splitLibrary_undirected {code : String} (none : ¬∃ p, LeadsAt (mask code) p) :
    splitLibrary code = (Option.none, code) := by
  rcases span : directiveSpan? (mask code) with _ | ⟨p, q⟩
  · rw [splitLibrary, span]
  · exact absurd ⟨p, (directiveSpan?_eq_some span).2⟩ none

theorem splitLibrary_directed {code : String} {p : Nat} (leads : LeadsAt (mask code) p) :
    ∃ q front line back, LineAt code p q front line back
      ∧ splitLibrary code = (some (Text.trim (String.ofList line)), String.ofList (front ++ back)) := by
  obtain ⟨q, span⟩ := directiveSpan?_leading leads
  obtain ⟨front, line, back, at_⟩ := lineAt_of_findDirective (directiveSpan?_eq_some span).1
  exact ⟨q, front, line, back, at_, at_.splitLibrary_eq span⟩

/-- A text is split at a directive if one leads its masked form. There is one such line at most; it is taken out
    whole, and without one the text stays as it is. -/
theorem splitLibrary_leading (code : String) :
    ((splitLibrary code).1.isSome = true ↔ ∃ p, LeadsAt (mask code) p)
      ∧ (∀ p r, LeadsAt (mask code) p → LeadsAt (mask code) r → p = r)
      ∧ (∀ p, LeadsAt (mask code) p → ∃ q front line back, LineAt code p q front line back
        ∧ splitLibrary code = (some (Text.trim (String.ofList line)), String.ofList (front ++ back)))
      ∧ ((¬∃ p, LeadsAt (mask code) p) → splitLibrary code = (none, code)) := by
  refine ⟨⟨?_, ?_⟩, ?_, fun p => splitLibrary_directed, splitLibrary_undirected⟩
  · intro taken
    by_contra none
    rw [splitLibrary_undirected none] at taken
    cases taken
  · rintro ⟨p, leads⟩
    obtain ⟨q, front, line, back, -, result⟩ := splitLibrary_directed leads
    rw [result]
    rfl
  · intro p r first second
    obtain ⟨q, span⟩ := directiveSpan?_leading first
    obtain ⟨q', span'⟩ := directiveSpan?_leading second
    rw [span] at span'
    exact (Prod.mk.inj (Option.some.inj span')).1

/-- A directive behind a comment and an empty line. -/
def headed : String :=
  "// header\n\nlibrary app.main; // entry\nimport 'x.dart';\n"

theorem headed_span : directiveSpan? (mask headed) = some (11, 38) := by
  decide +kernel

theorem headed_leads : LeadsAt (mask headed) 11 :=
  (directiveSpan?_eq_some headed_span).2

theorem splitLibrary_leading_headed :
    (splitLibrary headed).1.isSome = true ∧ ∃ q front line back, LineAt headed 11 q front line back
      ∧ splitLibrary headed = (some (Text.trim (String.ofList line)), String.ofList (front ++ back)) :=
  ⟨(splitLibrary_leading headed).1.mpr ⟨11, headed_leads⟩, (splitLibrary_leading headed).2.2.1 11 headed_leads⟩

end TemplateWeaver.Source
