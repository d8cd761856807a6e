import TemplateWeaver.Proofs.Weave.Acyclic
import TemplateWeaver.Proofs.Weave.Multiplicity

/-!
Names taken from a counter. A name is a stem and the number that the counter gives, and the stem does not end in a
digit, so the number can be read off the name (`number_of_name`). A walk numbers the clones of repeated regions in
the order of their start tags (`Walk.mints_eq`), also where a fault ends it. Numbers are given once, so the names
that come from one counter are all different (`minted_names_distinct`).
-/
namespace TemplateWeaver

open Code (BufferId)

variable {β : Type}

/-! ### Names and numbers -/

/-- The last character of a stem is a digit. -/
def endsInDigit (stem : String) : Bool :=
  stem.toList.getLast?.any Char.isDigit

theorem isDigit_of_mem_toString {n : Nat} {c : Char} (member : c ∈ (toString n).toList) : c.isDigit = true := by
  rw [Nat.toString_eq_ofList_toDigits, String.toList_ofList] at member
  exact Nat.isDigit_of_mem_toDigits (by decide) (by decide) member

/-- The digits at the end of a name are those of its number. -/
theorem trailing_digits {stem : String} (clean : endsInDigit stem = false) (n : Nat) :
    (stem ++ toString n).toList.reverse.takeWhile Char.isDigit = (toString n).toList.reverse := by
  have digits : ∀ c ∈ (toString n).toList.reverse, c.isDigit = true := by
    intro c member
    exact isDigit_of_mem_toString (List.mem_reverse.mp member)
  have stop : stem.toList.reverse.takeWhile Char.isDigit = [] := by
    rw [endsInDigit, ← List.head?_reverse] at clean
    cases rest : stem.toList.reverse with
    | nil => rfl
    | cons c more =>
      rw [rest] at clean
      exact List.takeWhile_cons_of_neg (by simpa using clean)
  rw [String.toList_append, List.reverse_append, List.takeWhile_append_of_pos digits, stop, List.append_nil]

/-- A name tells its number. -/
theorem number_of_name {stem other : String} {m n : Nat} (clean : endsInDigit stem = false)
    (clean' : endsInDigit other = false) (same : stem ++ toString m = other ++ toString n) : m = n := by
  have digits := trailing_digits clean m
  rw [same, trailing_digits clean' n] at digits
  rw [List.reverse_inj, Nat.toString_eq_ofList_toDigits, Nat.toString_eq_ofList_toDigits, String.toList_ofList,
    String.toList_ofList] at digits
  rw [← Nat.ofDigitChars_ten_toDigits (n := m), ← digits, Nat.ofDigitChars_ten_toDigits]

/-- Names in the order in which a counter gave their numbers, from `first` up to `last`. Some numbers may have
    gone to no name. -/
inductive Issued : Nat → Nat → List String → Prop where
  | none (first : Nat) : Issued first first []
  | skip {first last : Nat} {names : List String} (later : Issued (first + 1) last names) : Issued first last names
  | name {first last : Nat} {names : List String} {stem : String} (clean : endsInDigit stem = false)
      (later : Issued (first + 1) last names) : Issued first last ((stem ++ toString first) :: names)

namespace Issued

variable {first middle last : Nat} {names more : List String}

theorem append (before : Issued first middle names) (after : Issued middle last more) :
    Issued first last (names ++ more) := by
  induction before with
  | none => exact after
  | skip _ ih => exact .skip (ih after)
  | name clean _ ih => exact .name clean (ih after)

theorem number_of_mem {name : String} (issued : Issued first last names) (member : name ∈ names) :
    ∃ stem n, endsInDigit stem = false ∧ first ≤ n ∧ name = stem ++ toString n := by
  induction issued with
  | none => cases member
  | skip _ ih =>
    obtain ⟨stem, n, clean, above, same⟩ := ih member
    exact ⟨stem, n, clean, by omega, same⟩
  | @name first last names stem clean _ ih =>
    rcases List.mem_cons.mp member with rfl | later
    · exact ⟨stem, first, clean, Nat.le_refl first, rfl⟩
    · obtain ⟨other, n, clean', above, same⟩ := ih later
      exact ⟨other, n, clean', by omega, same⟩

/-- Issued names are all different. -/
theorem nodup (issued : Issued first last names) : names.Nodup := by
  induction issued with
  | none => exact List.nodup_nil
  | skip _ ih => exact ih
  | @name first last names stem clean later ih =>
    refine List.nodup_cons.mpr ⟨?_, ih⟩
    intro again
    -- A later name has a higher number, whatever its stem.
    obtain ⟨other, n, clean', above, same⟩ := later.number_of_mem again
    have number := number_of_name clean clean' same
    omega

theorem itemRoots (first count : Nat) :
    Issued first (first + count) ((List.range' first count).map Region.itemRoot) := by
  induction count generalizing first with
  | zero => exact .none first
  | succ count ih =>
    have later := ih (first + 1)
    rw [Nat.add_right_comm] at later
    exact .name (by decide +kernel) later

end Issued

/-! ### Names of a walk -/

/-- The variable that a repeated region has for its clones. -/
def Feature.itemRoot? : Feature β → Option String
  | .repeated _ _ _ _ itemRoot _ => some itemRoot
  | _ => none

namespace Head

theorem taken_eq (h : Head) : h.taken = if h.isRepeated then 1 else 0 := by
  unfold taken isRepeated
  rcases h.region? with _ | ⟨field, ⟨condition, stopper⟩ | ⟨item, collection, stopper⟩⟩ <;> rfl

theorem itemRoots_allFeatures (h : Head) (next : Nat) (inner : Section → β) :
    (h.allFeatures next inner).filterMap Feature.itemRoot? = (List.range' next h.taken).map Region.itemRoot := by
  have own : (h.ownFeatures : List (Feature β)).filterMap Feature.itemRoot? = [] := by
    apply List.filterMap_eq_nil_iff.mpr
    intro feature member
    have plain := not_isRegion_of_mem_ownFeatures member
    cases feature <;> first | rfl | cases plain
  rw [allFeatures, List.filterMap_append, own, List.nil_append, taken]
  rcases h.region? with _ | ⟨field, ⟨condition, stopper⟩ | ⟨item, collection, stopper⟩⟩ <;> rfl

end Head

theorem counter_innerScope (scope : Scope) (features : List (Feature BufferId)) :
    (innerScope scope features).counter = scope.counter := by
  unfold innerScope
  cases features.find? Feature.isRegion with
  | none => rfl
  | some region => cases region <;> rfl

/-- What the features of an element take from the counter. -/
theorem Head.features_take {h : Head} {children : List Node} {c : CounterId} {w w' : Workspace}
    {features : List (Feature BufferId)} (counted : c.index < w.counters.length)
    (ok : h.features children c w = .ok (features, w')) :
    features.filterMap Feature.itemRoot? = (List.range' (w.peek c) h.taken).map Region.itemRoot ∧
      w'.peek c = w.peek c + h.taken ∧ w'.counters.length = w.counters.length := by
  obtain ⟨inner, rfl, opens⟩ := features_eq ok
  refine ⟨h.itemRoots_allFeatures (w.peek c) inner, ?_, opens.counters⟩
  rw [opens.peek counted, innerNext_eq]

/-- The repeated regions that a walk comes to before it ends. -/
def reachedRegions (stops : List Stop) : List Stop :=
  (stops.takeWhile fun stop => stop.fault?.isNone).filter fun stop => stop.head.isRepeated

/-- Regions with the names that they have if they are numbered from `first` on. -/
def numbered (first : Nat) (regions : List Stop) : List (List Nat × String) :=
  (regions.zipIdx first).map fun (stop, number) => (stop.path, Region.itemRoot number)

theorem names_numbered (first : Nat) (regions : List Stop) :
    (numbered first regions).map Prod.snd = (List.range' first regions.length).map Region.itemRoot := by
  rw [← List.zipIdx_map_snd, numbered, List.map_map, List.map_map]
  rfl

theorem reachedRegions_of_fault {stop : Stop} {fault : Fault} (faulty : stop.fault? = some fault) (rest : List Stop) :
    reachedRegions (stop :: rest) = [] := by
  simp [reachedRegions, faulty]

theorem reachedRegions_of_sound {stop : Stop} (sound : stop.fault? = none) (rest : List Stop) :
    reachedRegions (stop :: rest) = (if stop.head.isRepeated then [stop] else []) ++ reachedRegions rest := by
  cases repeats : stop.head.isRepeated <;> simp [reachedRegions, sound, repeats]

namespace Walk

/-- The variables that a walk makes for the clones of repeated regions, each with the path of its region. -/
def mints (walk : Walk) : List Stop → List (List Nat × String)
  | [] => []
  | stop :: rest =>
    match stop.head.features stop.children (walk.scopes stop.path).counter walk.workspace with
    | .error _ => []
    | .ok (features, w) =>
      (features.filterMap Feature.itemRoot?).map (fun name => (stop.path, name))
        ++ (walk.enter stop.path features w).mints rest

/-- All scopes of a walk have one counter. -/
structure Counts (walk : Walk) (c : CounterId) : Prop where
  counter : ∀ path, (walk.scopes path).counter = c
  counted : c.index < walk.workspace.counters.length

variable {walk : Walk} {c : CounterId}

theorem peek_enter (walk : Walk) (path : List Nat) (features : List (Feature BufferId)) (w : Workspace)
    (c : CounterId) : (walk.enter path features w).workspace.peek c = w.peek c := by
  unfold enter Workspace.peek
  rw [counters_writeFeatures]

theorem Counts.enter (counts : walk.Counts c) (path : List Nat) (features : List (Feature BufferId)) {w : Workspace}
    (counted : c.index < w.counters.length) : (walk.enter path features w).Counts c where
  counter other := by
    unfold Walk.enter
    by_cases below : path <+: other
    · simp only [below, ↓reduceIte, counter_innerScope, counts.counter]
    · simp only [below, ↓reduceIte, counts.counter]
  counted := by
    unfold Walk.enter
    rwa [counters_writeFeatures]

/-- A walk numbers the repeated regions that it comes to, one after the other. -/
theorem mints_eq (counts : walk.Counts c) (stops : List Stop) :
    walk.mints stops = numbered (walk.workspace.peek c) (reachedRegions stops) ∧
      (walk.run stops).1.workspace.peek c = walk.workspace.peek c + (reachedRegions stops).length ∧
      (walk.run stops).1.workspace.counters.length = walk.workspace.counters.length := by
  -- All scopes keep the counter, so a stop takes its number from where the one before left it.
  induction stops generalizing walk with
  | nil => exact ⟨rfl, rfl, rfl⟩
  | cons stop rest ih =>
    rw [mints, run, visit, counts.counter]
    cases made : stop.head.features stop.children c walk.workspace with
    | error fault =>
      have faulty : stop.fault? = some fault := (stop.head.features_eq_error_iff _ _ _ _).mp made
      rw [reachedRegions_of_fault faulty]
      exact ⟨rfl, rfl, rfl⟩
    | ok result =>
      obtain ⟨features, w⟩ := result
      have sound : stop.fault? = none := Head.fault?_of_features made
      obtain ⟨roots, peek, counters⟩ := Head.features_take counts.counted made
      obtain ⟨later, ends, kept⟩ := ih (counts.enter stop.path features (counters ▸ counts.counted))
      rw [peek_enter, peek] at later ends
      rw [Head.taken_eq] at roots later ends
      rw [reachedRegions_of_sound sound]
      dsimp only
      refine ⟨?_, ?_, ?_⟩
      · rw [roots, later]
        cases stop.head.isRepeated <;> rfl
      · rw [ends, List.length_append, ← Nat.add_assoc]
        cases stop.head.isRepeated <;> rfl
      · rw [kept]
        unfold Walk.enter
        rw [counters_writeFeatures, counters]

end Walk

/-- The variables that weaving an element makes for the clones of its repeated regions, each with its path. -/
def Element.mints (e : Element) (scope : Scope) (w : Workspace) : List (List Nat × String) :=
  (Walk.start scope w).mints e.stops

/-- Weaving takes one number for every repeated region that it comes to, in the order of their start tags. -/
theorem Element.mints_eq (e : Element) {scope : Scope} {w : Workspace} (counted : scope.counter.index < w.counters.length) :
    e.mints scope w = numbered (w.peek scope.counter) (reachedRegions e.stops) ∧
      (e.weave scope w).1.peek scope.counter = w.peek scope.counter + (reachedRegions e.stops).length ∧
      (e.weave scope w).1.counters.length = w.counters.length := by
  have counts : (Walk.start scope w).Counts scope.counter := ⟨fun _ => rfl, counted⟩
  have runs : e.weave scope w = _ := weave_eq_run (Walk.start scope w) [] e.toNode
  rw [runs]
  exact Walk.mints_eq counts e.stops

/-! ### Names of a session -/

namespace Weave

/-- What is done in a session, with the scopes that the program makes inside. -/
inductive Move where
  | operate (operation : Operation)
  /-- A scope with the counter of another one and buffers of any kind. -/
  | rebuffer (scope : Nat) (buffers : Section → BufferId) (queryRoot : Option String)
  /-- Comes to an element and takes the scope that its children have. -/
  | descend (scope : Nat) (element : Element)

/-- No counter is made, and stems do not end in a digit. -/
def Move.derives : Move → Bool
  | .operate .create => false
  | .operate (.newName _ stem) => !endsInDigit stem
  | _ => true

def Answer.names : Answer → List String
  | .name given => [given]
  | _ => []

namespace Session

/-- The features of an element in a numbered scope, with that scope. -/
def prepare (s : Session) (number : Nat) (element : Element) :
    Option (Scope × List (Feature BufferId) × Workspace) :=
  s.scopes[number]?.bind fun scope =>
    (element.head.features element.children scope.counter s.workspace).toOption.map fun made => (scope, made)

def move (s : Session) : Move → Session
  | .operate operation => s.step operation
  | .rebuffer number buffers queryRoot =>
    s.scopes[number]?.elim s fun scope => s.withScope ({ scope with buffers, queryRoot }, s.workspace)
  | .descend number element =>
    (s.prepare number element).elim s fun (scope, features, w) => s.withScope (innerScope scope features, w)

/-- The names that a move makes, in order. -/
def minted (s : Session) : Move → List String
  | .operate (.weave number element) =>
    s.scopes[number]?.elim [] fun scope => (element.mints scope s.workspace).map Prod.snd
  | .operate operation => (s.apply operation).toOption.elim [] fun (answer, _) => answer.names
  | .rebuffer .. => []
  | .descend number element =>
    (s.prepare number element).elim [] fun (_, features, _) => features.filterMap Feature.itemRoot?

def moveAll (s : Session) (moves : List Move) : Session :=
  moves.foldl move s

/-- The names that moves make one after the other. -/
def mintedAll (s : Session) : List Move → List String
  | [] => []
  | move :: rest => s.minted move ++ (s.move move).mintedAll rest

/-- All scopes of a session have one counter. -/
structure Family (s : Session) (c : CounterId) : Prop where
  counter : ∀ scope ∈ s.scopes, scope.counter = c
  counted : c.index < s.workspace.counters.length

/-- A move that keeps to one counter makes names of the numbers that it takes from it. -/
structure Mints (s s' : Session) (c : CounterId) (names : List String) : Prop where
  family : s'.Family c
  issued : Issued (s.workspace.peek c) (s'.workspace.peek c) names

variable {s : Session} {c : CounterId}

theorem Family.withScope (family : s.Family c) {added : Scope × Workspace} (same : added.1.counter = c)
    (counters : added.2.counters.length = s.workspace.counters.length) : (s.withScope added).Family c where
  counter other member := by
    rcases List.mem_append.mp member with old | new
    · exact family.counter other old
    · obtain rfl := List.mem_singleton.mp new
      exact same
  counted := counters ▸ family.counted

theorem Family.keep (family : s.Family c) {w : Workspace} (counters : w.counters.length = s.workspace.counters.length) :
    Family { s with workspace := w } c where
  counter := family.counter
  counted := counters ▸ family.counted

theorem Family.mints_nothing (family : s.Family c) : s.Mints s c [] :=
  ⟨family, .none _⟩

/-- Scopes of the family are added where the counters stay. -/
theorem Family.mints_withScope (family : s.Family c) {added : Scope × Workspace} (same : added.1.counter = c)
    (counters : added.2.counters = s.workspace.counters) : s.Mints (s.withScope added) c [] := by
  refine ⟨family.withScope same (by rw [counters]), ?_⟩
  simp only [Session.withScope, Workspace.peek, counters]
  exact .none _

theorem Family.mints_keep (family : s.Family c) {w : Workspace} (counters : w.counters = s.workspace.counters) :
    s.Mints { s with workspace := w } c [] := by
  refine ⟨family.keep (by rw [counters]), ?_⟩
  simp only [Workspace.peek, counters]
  exact .none _

/-- Taking a number, for a name or for nothing. -/
theorem Family.mints_count (family : s.Family c) {names : List String}
    (issued : Issued (s.workspace.peek c) (s.workspace.peek c + 1) names) :
    s.Mints { s with workspace := (s.workspace.nextId c).2 } c names := by
  refine ⟨family.keep (by simp [Workspace.nextId]), ?_⟩
  rw [Head.peek_nextId family.counted]
  exact issued

/-- An operation on a scope that answers with the names it makes. -/
theorem mints_of_scope (family : s.Family c) {operation : Operation} (number : Nat) (after : Scope → Answer × Session)
    (reads : s.apply operation = s.scope number >>= fun scope => pure (after scope))
    (each : ∀ scope, scope.counter = c → s.Mints (after scope).2 c (after scope).1.names) :
    s.Mints (s.step operation) c ((s.apply operation).toOption.elim [] fun (answer, _) => answer.names) := by
  rw [step_of_scope reads, reads, Session.scope]
  cases found : s.scopes[number]? with
  | none => exact family.mints_nothing
  | some scope => exact each scope (family.counter scope (List.mem_of_getElem? found))

theorem mints_splice (family : s.Family c) (number source : Nat) (part sourcePart : Section) :
    s.Mints (s.step (.splice number part source sourcePart)) c
      ((s.apply (.splice number part source sourcePart)).toOption.elim [] fun (answer, _) => answer.names) := by
  rw [step, apply]
  cases s.scope number with
  | error refusal => exact family.mints_nothing
  | ok scope =>
    cases s.scope source with
    | error refusal => exact family.mints_nothing
    | ok other =>
      simp only [bind, Except.bind]
      cases s.workspace.store.embed? (scope.buffers part) (other.buffers sourcePart) with
      | none => exact family.mints_nothing
      | some store => exact family.mints_keep rfl

theorem mints_weave (family : s.Family c) (number : Nat) (element : Element) :
    s.Mints (s.step (.weave number element)) c (s.minted (.operate (.weave number element))) := by
  have reads : s.step (.weave number element)
      = s.scopes[number]?.elim s fun scope => { s with workspace := (element.weave scope s.workspace).1 } := by
    rw [step, apply, Session.scope]
    cases s.scopes[number]? <;> rfl
  rw [reads, minted]
  cases found : s.scopes[number]? with
  | none => exact family.mints_nothing
  | some scope =>
    obtain rfl := family.counter scope (List.mem_of_getElem? found)
    obtain ⟨names, ends, counters⟩ := element.mints_eq family.counted
    refine ⟨family.keep counters, ?_⟩
    simp only [Option.elim_some]
    rw [ends, names, names_numbered]
    exact Issued.itemRoots _ _

theorem mints_descend (family : s.Family c) (number : Nat) (element : Element) :
    s.Mints (s.move (.descend number element)) c (s.minted (.descend number element)) := by
  rw [move, minted]
  cases prepared : s.prepare number element with
  | none => exact family.mints_nothing
  | some result =>
    obtain ⟨scope, features, w⟩ := result
    obtain ⟨_, found, inside⟩ := Option.bind_eq_some_iff.mp prepared
    obtain ⟨_, made, same⟩ := Option.map_eq_some_iff.mp inside
    cases same
    have counter := family.counter scope (List.mem_of_getElem? found)
    rw [counter] at made
    have ok : element.head.features element.children c s.workspace = .ok (features, w) := by
      cases result : element.head.features element.children c s.workspace with
      | error fault => simp [result, Except.toOption] at made
      | ok found => simpa [result, Except.toOption] using made
    obtain ⟨roots, peek, counters⟩ := Head.features_take family.counted ok
    refine ⟨family.withScope (by rw [counter_innerScope, counter]) counters, ?_⟩
    simp only [Option.elim_some, Session.withScope]
    rw [roots, peek]
    exact Issued.itemRoots _ _

theorem mints_move (family : s.Family c) {move : Move} (derives : move.derives = true) :
    s.Mints (s.move move) c (s.minted move) := by
  cases move with
  | operate operation =>
    cases operation with
    | create => cases derives
    | share number =>
      exact mints_of_scope family number _ rfl fun scope same => family.mints_withScope same rfl
    | view number shared root =>
      exact mints_of_scope family number _ rfl fun scope same =>
        family.mints_withScope same (s.workspace.counters_viewScope scope shared root)
    | nextId number =>
      apply mints_of_scope family number _ rfl
      rintro scope rfl
      exact family.mints_count (.skip (.none _))
    | newName number stem =>
      apply mints_of_scope family number _ rfl
      rintro scope rfl
      have clean : endsInDigit stem = false := by simpa [Move.derives] using derives
      exact family.mints_count (.name clean (.none _))
    | append number part text =>
      exact mints_of_scope family number _ rfl fun scope _ => family.mints_keep rfl
    | splice number part source sourcePart => exact mints_splice family number source part sourcePart
    | weave number element => exact mints_weave family number element
  | rebuffer number buffers queryRoot =>
    rw [Session.move, minted]
    cases found : s.scopes[number]? with
    | none => exact family.mints_nothing
    | some scope => exact family.mints_withScope (family.counter scope (List.mem_of_getElem? found)) rfl
  | descend number element => exact mints_descend family number element

theorem mints_moveAll (family : s.Family c) {moves : List Move} (derive : ∀ move ∈ moves, move.derives = true) :
    s.Mints (s.moveAll moves) c (s.mintedAll moves) := by
  induction moves generalizing s with
  | nil => exact family.mints_nothing
  | cons move rest ih =>
    have first := mints_move family (derive move List.mem_cons_self)
    have later := ih first.family fun other member => derive other (List.mem_cons_of_mem _ member)
    exact ⟨later.family, first.issued.append later.issued⟩

/-- A new scope is the only one of its counter. -/
theorem family_newScope (w : Workspace) (queryRoot : Option String) :
    (({} : Session).withScope (w.newScope queryRoot)).Family (w.newScope queryRoot).1.counter where
  counter scope member := by
    obtain rfl := List.mem_singleton.mp member
    rfl
  counted := by
    simp [Session.withScope, Workspace.newScope, Workspace.allocateSections, Workspace.allocate]

end Session

/-- All names that come from one new scope are different, whatever is done with it and the scopes that come from it:
    those that are asked for, with any stems that do not end in a digit, and those of the clones of repeated regions,
    also where weaving ends at a fault. Weaving an element at any time, into any of the scopes, numbers the repeated
    regions that it comes to in the order of their start tags, from the number on that the counter has reached. -/
theorem minted_names_distinct (w : Workspace) (queryRoot : Option String) (moves : List Move)
    (derive : ∀ move ∈ moves, move.derives = true) :
    let start := ({} : Session).withScope (w.newScope queryRoot)
    (start.mintedAll moves).Nodup ∧
      ∀ scope ∈ (start.moveAll moves).scopes, ∀ element : Element,
        let now := (start.moveAll moves).workspace
        element.mints scope now = numbered (now.peek scope.counter) (reachedRegions element.stops) ∧
          (element.weave scope now).1.peek scope.counter
            = now.peek scope.counter + (reachedRegions element.stops).length := by
  intro start
  have mints := Session.mints_moveAll (Session.family_newScope w queryRoot) derive
  refine ⟨mints.issued.nodup, ?_⟩
  intro scope member element now
  have counted : scope.counter.index < now.counters.length := by
    rw [mints.family.counter scope member]
    exact mints.family.counted
  obtain ⟨names, ends, -⟩ := element.mints_eq counted
  exact ⟨names, ends⟩

/-- Names with the stem of item variables and with none, two templates, one of them with a fault, and scopes of
    all kinds. -/
def mixedMoves : List Move :=
  [.operate (.newName 0 "__x"), .descend 0 nestedRegions, .operate (.weave 1 nestedRegions), .operate (.nextId 0),
   .rebuffer 1 (fun _ => ⟨0⟩) none, .operate (.weave 2 faultyItems), .operate (.newName 2 ""),
   .operate (.view 2 [.created] none), .operate (.newName 3 "__x")]

theorem minted_names_distinct_mixedMoves :
    let start := ({} : Session).withScope (({} : Workspace).newScope none)
    start.mintedAll mixedMoves = ["__x0", "__x1", "__x2", "__x4", "5", "__x6"] ∧ (start.mintedAll mixedMoves).Nodup ∧
      ∀ scope ∈ (start.moveAll mixedMoves).scopes,
        faultyItems.mints scope (start.moveAll mixedMoves).workspace = [([0], "__x7")] := by
  intro start
  obtain ⟨distinct, numbers⟩ := minted_names_distinct {} none mixedMoves (by decide +kernel)
  refine ⟨by decide +kernel, distinct, ?_⟩
  intro scope member
  have counters : ∀ scope ∈ (start.moveAll mixedMoves).scopes, scope.counter = ⟨0⟩ := by decide +kernel
  have next : (start.moveAll mixedMoves).workspace.peek ⟨0⟩ = 7 := by decide +kernel
  rw [(numbers scope member faultyItems).1, counters scope member, next]
  decide +kernel

end Weave

end TemplateWeaver
