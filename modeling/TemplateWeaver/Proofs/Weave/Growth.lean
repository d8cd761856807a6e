import TemplateWeaver.Proofs.Code.Embedding
import TemplateWeaver.Proofs.Weave.ByValue

/-!
What weaving does to a workspace. Coming to an element adds what the element writes and opens a scope
for its children (`Enters`), or ends the walk (`weave_element`). So weaving changes no buffer that was
there but those of its scope, and all that it embeds is newer than what embeds it (`weave_grows`).
-/
namespace TemplateWeaver

open Code (BufferId Segment Store)

/-- The buffers and the counter of a scope are there, and no two sections share a buffer. -/
structure Scope.Fits (scope : Scope) (w : Workspace) : Prop where
  distinct : Function.Injective scope.buffers
  inside : ∀ part, (scope.buffers part).index < w.store.size
  counted : scope.counter.index < w.counters.length

theorem Scope.Fits.mono {scope : Scope} {w w' : Workspace} (fits : scope.Fits w)
    (size : w.store.size ≤ w'.store.size) (counters : w.counters.length ≤ w'.counters.length) :
    scope.Fits w' where
  distinct := fits.distinct
  inside part := Nat.lt_of_lt_of_le (fits.inside part) size
  counted := Nat.lt_of_lt_of_le fits.counted counters

/-! ### Writing -/

namespace Workspace

variable {scope : Scope} {w : Workspace}

@[simp] theorem size_extend (w : Workspace) (b : BufferId) (added : List (Segment BufferId)) :
    (w.extend b added).store.size = w.store.size :=
  Store.size_extend _ _ _

@[simp] theorem counters_extend (w : Workspace) (b : BufferId) (added : List (Segment BufferId)) :
    (w.extend b added).counters = w.counters := rfl

theorem size_write (w : Workspace) (scope : Scope) (code : Section → List (Segment BufferId)) :
    (w.write scope code).store.size = w.store.size := by
  simp [write, Section.all]

theorem counters_write (w : Workspace) (scope : Scope) (code : Section → List (Segment BufferId)) :
    (w.write scope code).counters = w.counters := rfl

theorem segments_write (fits : scope.Fits w) (code : Section → List (Segment BufferId)) (part : Section) :
    (w.write scope code).store.segments (scope.buffers part)
      = w.store.segments (scope.buffers part) ++ code part := by
  have apart : ∀ p q, p ≠ q → scope.buffers p ≠ scope.buffers q :=
    fun p q other same => other (fits.distinct same)
  have inside := fits.inside
  cases part <;>
    simp [write, Section.all, extend, Store.segments_extend_self, Store.segments_extend_of_ne, apart, inside]

theorem segments_write_of_ne {b : BufferId} (other : ∀ part, b ≠ scope.buffers part)
    (code : Section → List (Segment BufferId)) :
    (w.write scope code).store.segments b = w.store.segments b := by
  have apart : ∀ part, scope.buffers part ≠ b := fun part same => other part same.symm
  simp [write, Section.all, extend, Store.segments_extend_of_ne, apart]

end Workspace

section
variable {scope : Scope} {w : Workspace}

theorem size_writeFeatures (w : Workspace) (scope : Scope) (features : List (Feature BufferId)) :
    (writeFeatures w scope features).store.size = w.store.size := by
  induction features generalizing w with
  | nil => rfl
  | cons feature rest ih => exact (ih _).trans (w.size_write scope _)

theorem counters_writeFeatures (w : Workspace) (scope : Scope) (features : List (Feature BufferId)) :
    (writeFeatures w scope features).counters = w.counters := by
  induction features generalizing w with
  | nil => rfl
  | cons feature rest ih => exact (ih _).trans (w.counters_write scope _)

theorem segments_writeFeatures (fits : scope.Fits w) (features : List (Feature BufferId)) (part : Section) :
    (writeFeatures w scope features).store.segments (scope.buffers part)
      = w.store.segments (scope.buffers part)
        ++ features.flatMap fun feature => feature.code scope.queryRoot part := by
  induction features generalizing w with
  | nil => simp [writeFeatures]
  | cons feature rest ih =>
    have same := w.size_write scope (feature.code scope.queryRoot)
    have after := ih (w := w.write scope (feature.code scope.queryRoot))
      (fits.mono (Nat.le_of_eq same.symm) (Nat.le_refl _))
    rw [Workspace.segments_write fits, List.append_assoc] at after
    exact after

theorem segments_writeFeatures_of_ne {b : BufferId} (other : ∀ part, b ≠ scope.buffers part)
    (features : List (Feature BufferId)) :
    (writeFeatures w scope features).store.segments b = w.store.segments b := by
  induction features generalizing w with
  | nil => rfl
  | cons feature rest ih => exact ih.trans (Workspace.segments_write_of_ne other _)

end

/-! ### Features of an element -/

variable {β : Type}

namespace Head

variable {h : Head} {info : Info}

theorem plainFeatures_eq {plain : List (Feature β)} (given : h.info = some info)
    (ok : h.plainFeatures info = .ok plain) : plain = h.ownFeatures := by
  simp only [plainFeatures, fieldFeature, needField] at ok
  simp only [ownFeatures, given]
  generalize info.events.isEmpty = silent at *
  generalize (info.attributes.isEmpty && info.content.isNone) = unbound at *
  cases hasField : info.field with
  | none =>
    -- Without a field every other feature is a fault.
    cases silent <;> cases unbound <;> cases holds : info.component <;>
      simp_all [Except.map, bind, Except.bind, pure, Except.pure]
  | some field =>
    cases hasId : h.elementId? with
    | none => simp [hasField, hasId, bind, Except.bind] at ok
    | some elementId =>
      cases silent <;> cases unbound <;> cases holds : info.component <;>
        simp_all [Except.map, bind, Except.bind, pure, Except.pure]

theorem regionField_eq {children : List Node} {capability : Capability} {field : String}
    (ok : h.regionField info children capability = .ok field) : info.field = some field := by
  simp only [regionField, needField] at ok
  cases hasField : info.field with
  | none => simp [hasField, bind, Except.bind] at ok
  | some found =>
    simp only [hasField, bind, Except.bind, pure, Except.pure] at ok
    split at ok <;> simp_all

/-- The scope of an element's children: where their code does not pass on it goes to `inner`. -/
def childScope (h : Head) (scope : Scope) (next : Nat) (inner : Section → BufferId) : Scope where
  buffers part := if h.passes part then scope.buffers part else inner part
  queryRoot := h.innerRoot scope.queryRoot next
  counter := scope.counter

theorem not_isRegion_of_mem_ownFeatures {feature : Feature β} (member : feature ∈ h.ownFeatures) :
    feature.isRegion = false := by
  unfold ownFeatures at member
  split at member
  · cases member
  · split at member
    · cases member
    · simp only [List.mem_append, List.mem_map, List.mem_ite_nil_left, List.mem_singleton] at member
      rcases member with ((⟨_, _, rfl⟩ | ⟨_, rfl⟩) | ⟨_, rfl⟩) | ⟨_, _, rfl⟩ <;> rfl

theorem innerScope_allFeatures (h : Head) (scope : Scope) (next : Nat) (inner : Section → BufferId) :
    innerScope scope (h.allFeatures next inner) = h.childScope scope next inner := by
  have own : (h.ownFeatures : List (Feature BufferId)).find? Feature.isRegion = none :=
    List.find?_eq_none.mpr fun feature member => by simp [not_isRegion_of_mem_ownFeatures member]
  rcases found : h.region? with _ | ⟨field, ⟨condition, stopper⟩ | ⟨item, collection, stopper⟩⟩ <;>
    simp only [innerScope, allFeatures, List.find?_append, own, Option.none_or, childScope, passes, innerRoot,
      found]
  · rfl
  · simp only [Region.feature, Region.childRoot, Option.toList_some, List.map_cons, List.map_nil,
      List.find?_cons, Feature.isRegion, Feature.childScope, Scope.mk.injEq, and_true]
    funext part
    cases part <;> rfl
  · rfl

/-- All that an element embeds is code of its children that does not pass on. -/
theorem mem_code_embed {root : Option String} {next : Nat} {inner : Section → β} {part : Section} {c : β}
    (member : .embed c ∈ h.code root next inner part) : ∃ caught, h.passes caught = false ∧ c = inner caught := by
  rw [← Code.Segment.mem_embedded, embedded_code, List.mem_map] at member
  obtain ⟨caught, placed, rfl⟩ := member
  exact ⟨caught, passes_of_mem_placed placed, rfl⟩

/-- Buffers opened for what of the children's code does not pass on, and nothing else changed but the
    counter. -/
structure Opens (h : Head) (counter : CounterId) (w w' : Workspace) (inner : Section → BufferId) : Prop where
  segments : ∀ b, w'.store.segments b = w.store.segments b
  size : w.store.size ≤ w'.store.size
  counters : w'.counters.length = w.counters.length
  peek : counter.index < w.counters.length → w'.peek counter = h.innerNext (w.peek counter)
  fresh : ∀ part, h.passes part = false →
    w.store.size ≤ (inner part).index ∧ (inner part).index < w'.store.size
  distinct : ∀ p q, h.passes p = false → h.passes q = false → inner p = inner q → p = q

theorem size_allocate (w : Workspace) : w.allocate.2.store.size = w.store.size + 1 := by
  simp [Workspace.allocate, Store.allocate, Store.size]

theorem segments_allocate (w : Workspace) (b : BufferId) :
    w.allocate.2.store.segments b = w.store.segments b :=
  Store.segments_allocate _ _

theorem peek_nextId {w : Workspace} {counter : CounterId} (counted : counter.index < w.counters.length) :
    (w.nextId counter).2.peek counter = w.peek counter + 1 := by
  simp [Workspace.nextId, Workspace.peek, List.getElem?_eq_getElem counted]

theorem opens_conditional {field condition stopper : String}
    (region : h.region? = some (field, .conditional condition stopper)) (counter : CounterId) (w : Workspace) :
    h.Opens counter w w.allocate.2.allocate.2.allocate.2 fun
      | .declarations | .created => w.allocate.1
      | .mounted => w.allocate.2.allocate.1
      | .unmounted => w.allocate.2.allocate.2.allocate.1 where
  segments b := by simp only [segments_allocate]
  size := by simp only [size_allocate]; omega
  counters := rfl
  peek _ := by simp only [innerNext, region]; rfl
  fresh part caught := by
    simp only [size_allocate]
    cases part
    · simp [passes, region, Region.passes] at caught
    all_goals
      simp only [Workspace.allocate, Store.allocate, Store.size, List.length_append, List.length_singleton]
      omega
  distinct p q caught caught' same := by
    cases p <;> cases q <;>
      simp_all [passes, Region.passes, Workspace.allocate, Store.allocate, Store.size]

theorem opens_repeated {field item collection stopper : String}
    (region : h.region? = some (field, .repeated item collection stopper)) (counter : CounterId) (w : Workspace) :
    h.Opens counter w (w.nextId counter).2.allocateSections.2 (w.nextId counter).2.allocateSections.1 where
  segments b := by
    simp only [Workspace.allocateSections, segments_allocate]
    rfl
  size := by
    simp only [Workspace.allocateSections, size_allocate]
    exact Nat.le_add_right w.store.size 4
  counters := by simp [Workspace.allocateSections, Workspace.allocate, Workspace.nextId]
  peek counted := by
    simp only [innerNext, region]
    exact peek_nextId counted
  fresh part _ := by
    simp only [Workspace.allocateSections, size_allocate]
    cases part <;>
      simp only [Workspace.allocate, Store.allocate, Store.size, Workspace.nextId, List.length_append,
        List.length_singleton] <;>
      omega
  distinct p q _ _ same := by
    cases p <;> cases q <;>
      simp_all [Workspace.allocateSections, Workspace.allocate, Store.allocate, Store.size]

theorem regionFeature_eq {children : List Node} {counter : CounterId} {w w' : Workspace}
    {features : List (Feature BufferId)} (given : h.info = some info)
    (ok : h.regionFeature info children counter w = .ok (features, w')) :
    ∃ inner, features = (h.region?.toList.map fun (field, region) => region.feature field (w.peek counter) inner)
      ∧ h.Opens counter w w' inner := by
  unfold regionFeature at ok
  split at ok
  · next absent =>
    have plain : h.region? = none := by simp [region?, given, absent]
    cases ok
    refine ⟨fun _ => ⟨0⟩, by simp [plain], fun _ => rfl, Nat.le_refl _, rfl, fun _ => ?_, ?_, ?_⟩ <;>
      simp [innerNext, passes, plain]
  · next condition stopper present =>
    cases named : h.regionField info children .conditional with
    | error fault => simp [named, bind, Except.bind] at ok
    | ok field =>
      have region : h.region? = some (field, .conditional condition stopper) := by
        simp [region?, given, present, regionField_eq named]
      simp only [named, bind, Except.bind, pure, Except.pure, Except.ok.injEq, Prod.mk.injEq] at ok
      obtain ⟨rfl, rfl⟩ := ok
      exact ⟨_, by simp [region, Region.feature], opens_conditional region counter w⟩
  · next item collection stopper present =>
    cases named : h.regionField info children .repeated with
    | error fault => simp [named, bind, Except.bind] at ok
    | ok field =>
      have region : h.region? = some (field, .repeated item collection stopper) := by
        simp [region?, given, present, regionField_eq named]
      simp only [named, bind, Except.bind, pure, Except.pure, Except.ok.injEq, Prod.mk.injEq] at ok
      obtain ⟨rfl, rfl⟩ := ok
      exact ⟨_, by simp [region, Region.feature, Region.itemRoot, Workspace.newName, Workspace.nextId],
        opens_repeated region counter w⟩

/-- The features of an element without fault are all that it has, around new buffers. -/
theorem features_eq {children : List Node} {counter : CounterId} {w w' : Workspace}
    {found : List (Feature BufferId)} (ok : h.features children counter w = .ok (found, w')) :
    ∃ inner, found = h.allFeatures (w.peek counter) inner ∧ h.Opens counter w w' inner := by
  unfold features at ok
  split at ok
  · next absent =>
    have plain : h.region? = none := by simp [region?, absent]
    cases ok
    refine ⟨fun _ => ⟨0⟩, by simp [allFeatures, ownFeatures, absent, plain], fun _ => rfl, Nat.le_refl _, rfl,
      fun _ => ?_, ?_, ?_⟩ <;> simp [innerNext, passes, plain]
  · next info given =>
    cases own : (h.plainFeatures info : Except Fault (List (Feature BufferId))) with
    | error fault => simp [own, bind, Except.bind] at ok
    | ok plain =>
      cases last : h.regionFeature info children counter w with
      | error fault => simp [own, last, bind, Except.bind] at ok
      | ok result =>
        obtain ⟨region, after⟩ := result
        simp only [own, last, bind, Except.bind, pure, Except.pure, Except.ok.injEq, Prod.mk.injEq] at ok
        obtain ⟨rfl, rfl⟩ := ok
        obtain ⟨inner, rfl, opens⟩ := regionFeature_eq given last
        exact ⟨inner, by rw [plainFeatures_eq given own, allFeatures], opens⟩

end Head

/-! ### Coming to an element -/

/-- The workspace when the walk turns to the children of an element: the element has written its own
    code, and what of its children's code does not pass on goes to new buffers `inner`. -/
structure Enters (head : Head) (scope : Scope) (w w' : Workspace) (inner : Section → BufferId) : Prop where
  size : w.store.size ≤ w'.store.size
  counters : w'.counters.length = w.counters.length
  peek : w'.peek scope.counter = head.innerNext (w.peek scope.counter)
  own : ∀ part, w'.store.segments (scope.buffers part)
    = w.store.segments (scope.buffers part) ++ head.code scope.queryRoot (w.peek scope.counter) inner part
  others : ∀ b, (∀ part, b ≠ scope.buffers part) → w'.store.segments b = w.store.segments b
  fresh : ∀ part, head.passes part = false →
    w.store.size ≤ (inner part).index ∧ (inner part).index < w'.store.size
  distinct : ∀ p q, head.passes p = false → head.passes q = false → inner p = inner q → p = q

section
variable {scope : Scope} {w w' : Workspace} {head : Head} {inner : Section → BufferId}

/-- An element ends the walk and leaves the workspace as it is, or the walk goes on to its children. -/
theorem weave_element (fits : scope.Fits w) (head : Head) (children : List Node) :
    (∃ fault, Node.weave scope w (.element head children) = (w, some fault)) ∨
      ∃ inner w', Enters head scope w w' inner ∧
        Node.weave scope w (.element head children)
          = weaveAll (head.childScope scope (w.peek scope.counter) inner) w' children := by
  rw [Node.weave]
  cases ok : head.features children scope.counter w with
  | error fault => exact .inl ⟨fault, rfl⟩
  | ok result =>
    obtain ⟨features, opened⟩ := result
    obtain ⟨inner, rfl, opens⟩ := Head.features_eq ok
    refine .inr ⟨inner, writeFeatures opened scope (head.allFeatures (w.peek scope.counter) inner), ?_, ?_⟩
    · have still : scope.Fits opened := fits.mono opens.size (Nat.le_of_eq opens.counters.symm)
      refine { size := ?_, counters := ?_, peek := ?_, own := ?_, others := ?_, fresh := ?_, distinct := opens.distinct }
      · rw [size_writeFeatures]; exact opens.size
      · rw [counters_writeFeatures]; exact opens.counters
      · rw [Workspace.peek, counters_writeFeatures]; exact opens.peek fits.counted
      · intro part
        rw [segments_writeFeatures still, opens.segments, Head.code]
      · intro b other
        rw [segments_writeFeatures_of_ne other, opens.segments]
      · rw [size_writeFeatures]; exact opens.fresh
    · simp only [Head.innerScope_allFeatures]

namespace Enters

theorem ne_inner (enters : Enters head scope w w' inner) (fits : scope.Fits w) {part : Section}
    (caught : head.passes part = false) (other : Section) : inner part ≠ scope.buffers other := by
  intro same
  have new := (enters.fresh part caught).1
  have old := fits.inside other
  rw [← same] at old
  omega

/-- The buffers opened for the children are empty. -/
theorem segments_inner (enters : Enters head scope w w' inner) (fits : scope.Fits w) {part : Section}
    (caught : head.passes part = false) : w'.store.segments (inner part) = [] := by
  rw [enters.others _ (enters.ne_inner fits caught), Store.segments_eq_nil (enters.fresh part caught).1]

theorem fits_childScope (enters : Enters head scope w w' inner) (fits : scope.Fits w) :
    (head.childScope scope (w.peek scope.counter) inner).Fits w' where
  distinct p q same := by
    simp only [Head.childScope] at same
    cases passP : head.passes p <;> cases passQ : head.passes q <;> simp only [passP, passQ] at same
    · exact enters.distinct p q passP passQ same
    · exact absurd same (enters.ne_inner fits passP q)
    · exact absurd same.symm (enters.ne_inner fits passQ p)
    · exact fits.distinct same
  inside part := by
    simp only [Head.childScope]
    cases pass : head.passes part with
    | true => exact Nat.lt_of_lt_of_le (fits.inside part) enters.size
    | false => exact (enters.fresh part pass).2
  counted := enters.counters ▸ fits.counted

end Enters

end

/-! ### Growth -/

/-- What weaving into a scope may do: it makes buffers, adds to those of the scope, changes no other
    that was there, and embeds new buffers only, in older ones. -/
structure Grows (scope : Scope) (w w' : Workspace) : Prop where
  size : w.store.size ≤ w'.store.size
  counters : w'.counters.length = w.counters.length
  frame : ∀ b, b.index < w.store.size → (∀ part, b ≠ scope.buffers part) →
    w'.store.segments b = w.store.segments b
  newer : ∀ b c, w'.store.Embeds b c →
    w.store.Embeds b c ∨ b.index < c.index ∧ w.store.size ≤ c.index ∧ c.index < w'.store.size

namespace Grows

variable {scope inner : Scope} {w w' w'' : Workspace}

theorem refl (scope : Scope) (w : Workspace) : Grows scope w w :=
  ⟨Nat.le_refl _, rfl, fun _ _ _ => rfl, fun _ _ edge => .inl edge⟩

/-- Growth in a scope goes on with growth in another, whose buffers are of the first or new. -/
theorem widen (first : Grows scope w w') (second : Grows inner w' w'')
    (origin : ∀ part, (∃ outer, inner.buffers part = scope.buffers outer) ∨
      w.store.size ≤ (inner.buffers part).index) : Grows scope w w'' where
  size := Nat.le_trans first.size second.size
  counters := second.counters.trans first.counters
  frame b old other := by
    have elsewhere : ∀ part, b ≠ inner.buffers part := by
      rintro part rfl
      rcases origin part with ⟨outer, same⟩ | new
      · exact other outer same
      · exact absurd old (Nat.not_lt.mpr new)
    rw [second.frame b (Nat.lt_of_lt_of_le old first.size) elsewhere, first.frame b old other]
  newer b c edge := by
    have more := first.size
    have most := second.size
    rcases second.newer b c edge with old | ⟨above, new, inside⟩
    · rcases first.newer b c old with older | ⟨above, new, inside⟩
      · exact .inl older
      · exact .inr ⟨above, new, by omega⟩
    · exact .inr ⟨above, by omega, inside⟩

theorem trans (first : Grows scope w w') (second : Grows scope w' w'') : Grows scope w w'' :=
  first.widen second fun part => .inl ⟨part, rfl⟩

theorem acyclic (grows : Grows scope w w') (acyclic : w.store.Acyclic) : w'.store.Acyclic := by
  refine Store.acyclic_of_newer acyclic fun b c edge => ?_
  rcases grows.newer b c edge with old | ⟨above, new, _⟩
  · exact .inl old
  · exact .inr ⟨above, new⟩

end Grows

section
variable {scope : Scope} {w w' w'' : Workspace} {head : Head} {inner : Section → BufferId}

theorem Enters.grows (enters : Enters head scope w w' inner) (fits : scope.Fits w) : Grows scope w w' where
  size := enters.size
  counters := enters.counters
  frame b _ other := enters.others b other
  newer b c edge := by
    by_cases ours : ∃ part, b = scope.buffers part
    · obtain ⟨part, rfl⟩ := ours
      rw [Store.Embeds, enters.own, List.mem_append] at edge
      rcases edge with old | own
      · exact .inl old
      · obtain ⟨caught, pass, rfl⟩ := Head.mem_code_embed own
        have inside := fits.inside part
        obtain ⟨new, bound⟩ := enters.fresh caught pass
        exact .inr ⟨by omega, new, bound⟩
    · rw [Store.Embeds, enters.others b fun part same => ours ⟨part, same⟩] at edge
      exact .inl edge

theorem Enters.grows_children (enters : Enters head scope w w' inner) (fits : scope.Fits w)
    (children : Grows (head.childScope scope (w.peek scope.counter) inner) w' w'') : Grows scope w w'' := by
  refine (enters.grows fits).widen children fun part => ?_
  cases pass : head.passes part with
  | true => exact .inl ⟨part, by simp [Head.childScope, pass]⟩
  | false =>
    refine .inr ?_
    simp only [Head.childScope, pass]
    exact (enters.fresh part pass).1

end

mutual
/-- Weaving grows the workspace, whether or not it comes to an end. -/
theorem weave_grows {scope : Scope} {w : Workspace} (fits : scope.Fits w) (node : Node) :
    Grows scope w (node.weave scope w).1 := by
  cases node with
  | text value => exact .refl scope w
  | element head children =>
    rcases weave_element fits head children with ⟨fault, stopped⟩ | ⟨inner, w', enters, goes⟩
    · rw [stopped]
      exact .refl scope w
    · rw [goes]
      exact enters.grows_children fits (weaveAll_grows (enters.fits_childScope fits) children)
theorem weaveAll_grows {scope : Scope} {w : Workspace} (fits : scope.Fits w) (nodes : List Node) :
    Grows scope w (weaveAll scope w nodes).1 := by
  cases nodes with
  | nil => exact .refl scope w
  | cons node rest =>
    have first := weave_grows fits node
    rw [weaveAll]
    rcases result : node.weave scope w with ⟨w', _ | fault⟩
    · rw [result] at first
      exact first.trans (weaveAll_grows (fits.mono first.size (Nat.le_of_eq first.counters.symm)) rest)
    · rw [result] at first
      exact first
end

/-! ### New scopes -/

namespace Workspace

theorem fits_newScope (w : Workspace) (root : Option String) :
    (w.newScope root).1.Fits (w.newScope root).2 where
  distinct p q same := by
    cases p <;> cases q <;> simp_all [newScope, allocateSections, allocate, Store.allocate, Store.size]
  inside part := by
    cases part <;>
      simp only [newScope, allocateSections, allocate, Store.allocate, Store.size, List.length_append,
        List.length_singleton] <;>
      omega
  counted := by simp [newScope]

theorem segments_newScope (w : Workspace) (root : Option String) (b : BufferId) :
    (w.newScope root).2.store.segments b = w.store.segments b := by
  simp only [newScope, allocateSections, Head.segments_allocate]

theorem acyclic_newScope {w : Workspace} (acyclic : w.store.Acyclic) (root : Option String) :
    (w.newScope root).2.store.Acyclic := by
  have same : (w.newScope root).2.store.Embeds = w.store.Embeds := by
    funext b c
    rw [Store.Embeds, Store.Embeds, segments_newScope]
  intro b
  rw [same]
  exact acyclic b

/-- The buffers of a new scope are new. -/
theorem le_newScope_buffers (w : Workspace) (root : Option String) (part : Section) :
    w.store.size ≤ ((w.newScope root).1.buffers part).index := by
  cases part <;>
    simp only [newScope, allocateSections, allocate, Store.allocate, Store.size, List.length_append,
      List.length_singleton] <;>
    omega

theorem size_le_newScope (w : Workspace) (root : Option String) :
    w.store.size ≤ (w.newScope root).2.store.size := by
  simp only [newScope, allocateSections, Head.size_allocate]
  omega

/-- The sections of a new scope are empty. -/
theorem segments_newScope_buffers (w : Workspace) (root : Option String) (part : Section) :
    (w.newScope root).2.store.segments ((w.newScope root).1.buffers part) = [] := by
  rw [segments_newScope]
  exact Store.segments_eq_nil (w.le_newScope_buffers root part)

theorem peek_newScope (w : Workspace) (root : Option String) :
    (w.newScope root).2.peek (w.newScope root).1.counter = 0 := by
  simp [newScope, peek, allocateSections, allocate]

end Workspace

end TemplateWeaver
