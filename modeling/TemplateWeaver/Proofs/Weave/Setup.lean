import TemplateWeaver.Proofs.Weave.Multiplicity

/-!
In what order elements are set up. Read what is created and then what is mounted: of what belongs to one
child, an element keeps the order (`filter_setup_element`), so a line that comes first in the code of an
element comes first in that of the whole template (`precedes_emit`). The lookup of an element comes before
all else that sets it up (`lookup_precedes`), and the clone of a region is bound before anything in it is
set up (`clone_precedes`).
-/
namespace TemplateWeaver

open Code (Segment)
open Code.Segment (embedded ownLines mem_ownLines)

variable {β : Type}

/-! ### One line before another -/

/-- Both occur, and nowhere does `y` stand before `x`. -/
structure Precedes {α : Type} (lines : List α) (x y : α) : Prop where
  first : x ∈ lines
  second : y ∈ lines
  apart : x ≠ y
  ordered : lines.Pairwise fun a b => ¬ (a = y ∧ b = x)

namespace Precedes

variable {α : Type} {x y : α}

theorem of_split {front block back : List α} (inside : x ∈ block) (behind : y ∈ back) (later : y ∉ front ++ block)
    (once : x ∉ back) : Precedes (front ++ block ++ back) x y where
  first := by simp [inside]
  second := by simp [behind]
  apart := by
    rintro rfl
    exact once behind
  ordered := by
    refine List.pairwise_append.mpr ⟨?_, ?_, ?_⟩
    · refine List.Pairwise.imp_of_mem (fun here _ _ => ?_) (List.pairwise_of_forall fun _ _ => trivial)
      rintro ⟨rfl, -⟩
      exact later here
    · refine List.Pairwise.imp_of_mem (fun _ there _ => ?_) (List.pairwise_of_forall fun _ _ => trivial)
      rintro ⟨-, rfl⟩
      exact once there
    · rintro a here b _ ⟨rfl, -⟩
      exact later here

/-- The order of two lines is the same in lists that agree on them. -/
theorem transfer {xs ys : List α} {p : α → Bool} (same : ys.filter p = xs.filter p) (left : p x = true)
    (right : p y = true) (precedes : Precedes xs x y) : Precedes ys x y where
  first := (List.mem_filter.mp (same ▸ List.mem_filter.mpr ⟨precedes.first, left⟩)).1
  second := (List.mem_filter.mp (same ▸ List.mem_filter.mpr ⟨precedes.second, right⟩)).1
  apart := precedes.apart
  ordered := by
    have kept : (ys.filter p).Pairwise fun a b => ¬ (a = y ∧ b = x) := same ▸ precedes.ordered.filter p
    refine (List.pairwise_filter.mp kept).imp fun {a b} distinct => ?_
    rintro ⟨rfl, rfl⟩
    exact distinct right left ⟨rfl, rfl⟩

end Precedes

/-! ### Lines of segments -/

namespace Traced

theorem ofSegments_append (path : List Nat) (hook : Section) (place : Nat) (front back : List (Segment (List Traced))) :
    ofSegments path hook place (front ++ back)
      = ofSegments path hook place front ++ ofSegments path hook (place + front.length) back := by
  induction front generalizing place with
  | nil => rfl
  | cons segment rest ih =>
    rw [List.cons_append, ofSegments, ofSegments, ih, List.cons_append, List.length_cons, Nat.add_assoc,
      Nat.add_comm 1]

/-- Segments that embed nothing are their own lines. -/
theorem linesAll_ofSegments_bare (path : List Nat) (hook : Section) (place : Nat)
    {segments : List (Segment (List Traced))} (bare : embedded segments = []) :
    linesAll (ofSegments path hook place segments) = ownLines path hook place segments := by
  induction segments generalizing place with
  | nil => rfl
  | cons segment rest ih =>
    cases segment with
    | line text =>
      rw [ofSegments, linesAll, ofSegment, lines, ih _ bare]
      rfl
    | embed body => cases bare

end Traced

theorem ownLines_append (path : List Nat) (hook : Section) (place : Nat) (front back : List (Segment β)) :
    ownLines path hook place (front ++ back)
      = ownLines path hook place front ++ ownLines path hook (place + front.length) back := by
  induction front generalizing place with
  | nil => rfl
  | cons segment rest ih =>
    cases segment <;> simp only [List.cons_append, ownLines, ih, List.length_cons, Nat.add_assoc, Nat.add_comm 1]

theorem ownLines_lines (path : List Nat) (hook : Section) (place : Nat) (text : String) :
    ownLines path hook place (Code.lines text : List (Segment β))
      = ownLines path hook place (Code.lines text : List (Segment Unit)) := by
  rw [← Code.map_lines (fun _ => ()) text, ownLines_map]

/-! ### Sections and hooks -/

section
variable {path : List Nat} {root : Option String} {next : Nat} {part : Section}

theorem hook_of_multiplicity {around : List Head} {hook : Section} (occurs : multiplicity around hook part ≠ 0)
    (other : part ≠ .mounted) : hook = part := by
  revert occurs
  cases hook <;> cases part <;> simp only [multiplicity] <;>
    generalize around.any Head.isRegion = caught <;>
    generalize around.any Head.isRepeated = cloned <;>
    cases caught <;> cases cloned <;> simp_all

/-- Only what is mounted brings together lines of several hooks. -/
theorem hook_of_mem_emit {line : Origin × String} {node : Node}
    (member : line ∈ Traced.linesAll ((node.emit path root next).code part)) (other : part ≠ .mounted) :
    line.1.hook = part := by
  obtain ⟨below, visit, leads, visited, written⟩ := mem_emit node member
  have counts : (Traced.linesAll ((node.emit path root next).code part)).count line
      = multiplicity visit.around line.1.hook part := by
    rw [← count_emit path visited written, ← leads]
  have occurs := List.count_pos_iff.mpr member
  rw [counts] at occurs
  exact hook_of_multiplicity (Nat.ne_of_gt occurs) other

theorem hook_of_mem_emitAll {place : Nat} {line : Origin × String} {nodes : List Node}
    (member : line ∈ Traced.linesAll ((emitAll path place root next nodes).code part)) (other : part ≠ .mounted) :
    line.1.hook = part := by
  induction nodes generalizing place next with
  | nil => cases member
  | cons node rest ih =>
    rw [emitAll, Traced.linesAll_append] at member
    rcases List.mem_append.mp member with first | later
    · exact hook_of_mem_emit first other
    · exact ih later

end

/-! ### Reading the setup -/

/-- The line sets its element up. -/
def Origin.SetsUp (origin : Origin) : Prop :=
  origin.hook = .created ∨ origin.hook = .mounted

/-- What is created, and then what is mounted. -/
def Emission.setup (emission : Emission) : List (Origin × String) :=
  Traced.linesAll (emission.code .created) ++ Traced.linesAll (emission.code .mounted)

section
variable {path : List Nat} {root : Option String} {next : Nat} {part : Section} {p : Origin × String → Bool}

theorem filter_ofSegments {hook : Section} {place : Nat} (elsewhere : ∀ line, p line = true → line.1.path ≠ path)
    (segments : List (Segment (List Traced))) :
    (Traced.linesAll (Traced.ofSegments path hook place segments)).filter p
      = (embedded segments).flatMap fun body => (Traced.linesAll body).filter p := by
  induction segments generalizing place with
  | nil => rfl
  | cons segment rest ih =>
    rw [Traced.ofSegments, Traced.linesAll, List.filter_append, ih]
    cases segment with
    | line text =>
      have own : p ({ path, hook, place }, text) = false := by
        rw [Bool.eq_false_iff]
        exact fun holds => elsewhere _ holds rfl
      simp [Traced.ofSegment, Traced.lines, own, embedded]
    | embed body => rfl

/-- What an element lets through of its children's lines, section by section. -/
theorem filter_emit_element (elsewhere : ∀ line, p line = true → line.1.path ≠ path) (head : Head)
    (children : List Node) :
    (Traced.linesAll (((Node.element head children).emit path root next).code part)).filter p
      = (head.outlets part).flatMap fun caught => (Traced.linesAll
          ((emitAll path 0 (head.innerRoot root next) (head.innerNext next) children).code caught)).filter p := by
  rw [Node.emit, Traced.linesAll_append, List.filter_append, filter_ofSegments elsewhere, Head.embedded_code,
    Head.outlets, List.flatMap_append, List.flatMap_map]
  congr 1
  cases head.passes part <;> simp [Traced.linesAll]

/-- An element keeps the order of what sets up one of its children. -/
theorem filter_setup_element {head : Head} {children : List Node} {index : Nat} {child : Node}
    (found : children[index]? = some child) (leads : ∀ line, p line = true → path ++ [index] <+: line.1.path)
    (setsUp : ∀ line, p line = true → line.1.SetsUp) :
    ((Node.element head children).emit path root next).setup.filter p
      = (child.emit (path ++ [index]) (head.innerRoot root next)
          (head.innerNext next + takenAll (children.take index))).setup.filter p := by
  have elsewhere : ∀ line, p line = true → line.1.path ≠ path := by
    intro line holds same
    have longer := (leads line holds).length_le
    rw [same, List.length_append, List.length_singleton] at longer
    omega
  have quiet : ∀ caught, caught ≠ .created → caught ≠ .mounted → (Traced.linesAll
      ((emitAll path 0 (head.innerRoot root next) (head.innerNext next) children).code caught)).filter p = [] := by
    intro caught notCreated notMounted
    refine List.filter_eq_nil_iff.mpr fun line member holds => ?_
    have hook := hook_of_mem_emitAll member notMounted
    rcases setsUp line holds with created | mounted
    · exact notCreated (hook.symm.trans created)
    · exact notMounted (hook.symm.trans mounted)
  have through : ∀ caught, (Traced.linesAll
      ((emitAll path 0 (head.innerRoot root next) (head.innerNext next) children).code caught)).filter p
        = (Traced.linesAll ((child.emit (path ++ [index]) (head.innerRoot root next)
            (head.innerNext next + takenAll (children.take index))).code caught)).filter p := by
    intro caught
    rw [← Nat.zero_add index] at leads
    rw [filter_emitAll found leads, Nat.zero_add]
  rw [Emission.setup, Emission.setup, List.filter_append, List.filter_append, filter_emit_element elsewhere,
    filter_emit_element elsewhere, ← through, ← through]
  have declared := quiet .declarations (by decide) (by decide)
  have unmounted := quiet .unmounted (by decide) (by decide)
  rcases region : head.region? with _ | ⟨field, ⟨condition, stopper⟩ | ⟨item, collection, stopper⟩⟩ <;>
    simp [Head.outlets, Head.placed, Head.passes, Region.placed, Region.passes, region, declared, unmounted]

/-- A line that comes before another in the code of an element does so in the code of all around it. -/
theorem precedes_emit (path : List Nat) {below : List Nat} {node : Node} {visit : Visit}
    (visited : node.visit root next below = some visit) {x y : Origin × String}
    (leadsX : path ++ below <+: x.1.path) (leadsY : path ++ below <+: y.1.path) (setsX : x.1.SetsUp)
    (setsY : y.1.SetsUp) (occurs : y ∈ (node.emit path root next).setup)
    (here : ∀ children, y ∈ ((Node.element visit.head children).emit (path ++ below) visit.root visit.next).setup →
      Precedes ((Node.element visit.head children).emit (path ++ below) visit.root visit.next).setup x y) :
    Precedes (node.emit path root next).setup x y := by
  induction below generalizing node path root next visit with
  | nil =>
    obtain ⟨head, children, rfl, rfl⟩ := Node.visit_nil visited
    simp only [List.append_nil] at here
    exact here children occurs
  | cons index below ih =>
    obtain ⟨head, children, child, visit, rfl, found, reached, rfl⟩ := Node.visit_cons visited
    have split : path ++ index :: below = (path ++ [index]) ++ below := by simp
    rw [split] at leadsX leadsY here
    let p : Origin × String → Bool := fun line => decide (line = x ∨ line = y)
    have among : ∀ line, p line = true → path ++ [index] <+: line.1.path ∧ line.1.SetsUp := by
      intro line holds
      rcases of_decide_eq_true holds with rfl | rfl
      · exact ⟨(List.prefix_append _ _).trans leadsX, setsX⟩
      · exact ⟨(List.prefix_append _ _).trans leadsY, setsY⟩
    have left : p x = true := by simp [p]
    have right : p y = true := by simp [p]
    have same : ((Node.element head children).emit path root next).setup.filter p = _ :=
      filter_setup_element found (fun line holds => (among line holds).1) fun line holds => (among line holds).2
    have there := List.mem_filter.mpr ⟨occurs, right⟩
    rw [same] at there
    exact (ih (path ++ [index]) reached leadsX leadsY (List.mem_filter.mp there).1 here).transfer same left right

/-- What an element writes to set itself up occurs once in the setup. -/
theorem count_setup (path : List Nat) {below : List Nat} {node : Node} {visit : Visit} {hook : Section}
    {line : Origin × String} (visited : node.visit root next below = some visit)
    (own : line ∈ ownLines (path ++ below) hook 0 (visit.code hook)) (setsUp : line.1.SetsUp) :
    (node.emit path root next).setup.count line = 1 := by
  obtain ⟨origin, text⟩ := line
  obtain ⟨index, rfl, written⟩ := mem_ownLines.mp own
  rw [Nat.zero_add, Emission.setup, List.count_append, count_emit path visited written,
    count_emit path visited written]
  obtain rfl | rfl : hook = .created ∨ hook = .mounted := setsUp
  · simp only [multiplicity]
    generalize visit.around.any Head.isRegion = caught
    cases caught <;> rfl
  · rfl

theorem mem_setup (path : List Nat) {below : List Nat} {node : Node} {visit : Visit} {hook : Section}
    {line : Origin × String} (visited : node.visit root next below = some visit)
    (own : line ∈ ownLines (path ++ below) hook 0 (visit.code hook)) (setsUp : line.1.SetsUp) :
    line ∈ (node.emit path root next).setup := by
  refine List.count_pos_iff.mp ?_
  rw [count_setup path visited own setsUp]
  exact Nat.one_pos

/-- A block of an element's own lines comes before all lines of its setup that do not stand before it. -/
theorem precedes_of_setup {head : Head} {children : List Node} {front block back : List (Origin × String)}
    (split : ((Node.element head children).emit path root next).setup = front ++ block ++ back)
    {x y : Origin × String} (inside : x ∈ block)
    (own : x ∈ ownLines path part 0 (head.code root next (fun _ => ()) part)) (setsUp : x.1.SetsUp)
    (occurs : y ∈ ((Node.element head children).emit path root next).setup) (later : y ∉ front ++ block) :
    Precedes ((Node.element head children).emit path root next).setup x y := by
  have visited : (Node.element head children).visit root next [] = some { head, root, next } := rfl
  have once := count_setup path visited (by rwa [List.append_nil]) setsUp
  rw [split] at once occurs ⊢
  have behind : y ∈ back := (List.mem_append.mp occurs).resolve_left later
  refine .of_split inside behind later fun again => ?_
  have some := List.count_pos_iff.mpr inside
  have more := List.count_pos_iff.mpr again
  rw [List.count_append, List.count_append] at once
  omega

end

/-! ### Lookups -/

section
variable {path : List Nat} {root : Option String} {next : Nat}

/-- What is created for an element with a field begins with its lookup. -/
theorem Head.code_created {h : Head} {info : Info} {field elementId : String} (given : h.info = some info)
    (named : info.field = some field) (found : h.elementId? = some elementId) (root : Option String) (next : Nat)
    (inner : Section → β) :
    ∃ rest, h.code root next inner .created = Code.lines (lookupLine root field elementId) ++ rest := by
  rw [code, allFeatures, ownFeatures, given]
  simp only [named, found, Option.toList_some, List.map_cons, List.map_nil, List.cons_append, List.flatMap_cons]
  exact ⟨_, rfl⟩

theorem mem_code_of_lookup {v : Visit} {info : Info} {field elementId : String} (given : v.head.info = some info)
    (named : info.field = some field) (found : v.head.elementId? = some elementId) {x : Origin × String}
    (looks : x ∈ ownLines path .created 0 (Code.lines (lookupLine v.root field elementId) : List (Segment Unit))) :
    x ∈ ownLines path .created 0 (v.code .created) := by
  obtain ⟨rest, code⟩ := v.head.code_created given named found v.root v.next fun _ => ()
  rw [Visit.code, code, ownLines_append]
  exact List.mem_append_left _ looks

/-- The lookup comes before all else that sets up the element and what is in it. -/
theorem lookup_precedes {head : Head} {children : List Node} {info : Info} {field elementId : String}
    (given : head.info = some info) (named : info.field = some field) (found : head.elementId? = some elementId)
    {x y : Origin × String}
    (looks : x ∈ ownLines path .created 0 (Code.lines (lookupLine root field elementId) : List (Segment Unit)))
    (occurs : y ∈ ((Node.element head children).emit path root next).setup)
    (other : y ∉ ownLines path .created 0 (Code.lines (lookupLine root field elementId) : List (Segment Unit))) :
    Precedes ((Node.element head children).emit path root next).setup x y := by
  let inner := emitAll path 0 (head.innerRoot root next) (head.innerNext next) children
  have begins : ∃ back, ((Node.element head children).emit path root next).setup
      = [] ++ ownLines path .created 0 (Code.lines (lookupLine root field elementId) : List (Segment Unit))
        ++ back := by
    obtain ⟨rest, code⟩ := head.code_created given named found root next inner.code
    rw [Emission.setup, Node.emit]
    simp only
    rw [code, Traced.ofSegments_append, Traced.linesAll_append, Traced.linesAll_append,
      Traced.linesAll_ofSegments_bare _ _ _ (embedded_lines _), ownLines_lines]
    simp only [List.nil_append, List.append_assoc]
    exact ⟨_, rfl⟩
  obtain ⟨back, split⟩ := begins
  have own : x ∈ ownLines path .created 0 (Visit.code { head, root, next } .created) :=
    mem_code_of_lookup given named found looks
  exact precedes_of_setup split looks own (.inl (path_of_mem_ownLines looks).2) occurs (by simpa using other)

end

/-! ### Clones -/

namespace Region

variable (field : String) (next : Nat)

/-- The line that binds the clone of a region. -/
def cloneLine : Region → String
  | .conditional .. => s!"{field}_child = {field}_childTemplate.clone(true);"
  | .repeated .. => s!"var {itemRoot next} = {field}_childTemplate.clone(true);"

/-- What a region writes before it binds a clone, when it is mounted. -/
def beforeClone (inner : Section → β) : Region → List (Segment β)
  | .conditional condition stopper =>
    Code.lines s!"{field}_parent = {field}.parent;"
      ++ watch stopper condition
      ++ Code.allLines
        ["bool showNow = e.newValue == true;", s!"if ({field}_child != null && !showNow) \x7b"]
      ++ .embed (inner .unmounted)
        :: Code.allLines
          [s!"{conditionalRoot field}.remove();", s!"{conditionalRoot field} = null;",
           s!"\x7d else if ({field}_child == null && showNow) \x7b"]
  | .repeated item collection stopper =>
    watch stopper collection
      ++ removeClones field
      ++ Code.allLines
        ["if (e.newValue is Iterable) \x7b", s!"for (var {Text.oneLine item} in e.newValue) \x7b"]

theorem code_mounted (root : Option String) (inner : Section → β) (region : Region) :
    ∃ rest, (region.feature field next inner).code root .mounted
      = region.beforeClone field inner ++ Code.lines (region.cloneLine field next) ++ rest := by
  cases region with
  | conditional condition stopper =>
    simp only [feature, Feature.code, conditionalCode, beforeClone, cloneLine, detachClone, Code.allLines,
      List.flatMap_cons, List.flatMap_nil, List.nil_append, List.append_assoc, List.cons_append]
    exact ⟨_, rfl⟩
  | «repeated» item collection stopper =>
    simp only [feature, Feature.code, repeatedCode, beforeClone, cloneLine, Code.allLines, List.flatMap_cons,
      List.flatMap_nil, List.nil_append, List.append_assoc]
    exact ⟨_, rfl⟩

theorem map_beforeClone {γ : Type} (g : β → γ) (inner : Section → β) (region : Region) :
    (region.beforeClone field inner).map (Segment.map g) = region.beforeClone field fun part => g (inner part) := by
  cases region <;> simp [beforeClone, removeClones, Segment.map]

/-- Of the children's code only what takes them down stands before the clone is bound. -/
theorem mem_embedded_beforeClone {field : String} {inner : Section → β} {region : Region} {body : β}
    (member : body ∈ embedded (region.beforeClone field inner)) : body = inner .unmounted := by
  cases region with
  | conditional condition stopper => simpa [beforeClone, embedded] using member
  | «repeated» item collection stopper => simp [beforeClone, removeClones] at member

end Region

/-- What an element that is a region writes before it binds a clone. -/
def Head.beforeClone (h : Head) (root : Option String) (field : String) (region : Region) (inner : Section → β) :
    List (Segment β) :=
  (h.ownFeatures.flatMap fun feature => feature.code root .mounted) ++ region.beforeClone field inner

/-- The lines that bind the clone of a region, those of the element at `path`. -/
def Visit.cloneLines (v : Visit) (path : List Nat) : List (Origin × String) :=
  match v.head.region? with
  | none => []
  | some (field, region) =>
    ownLines path .mounted (v.head.beforeClone v.root field region fun _ => ()).length
      (Code.lines (region.cloneLine field v.next) : List (Segment Unit))

section
variable {path : List Nat} {root : Option String} {next : Nat} {head : Head} {field : String} {region : Region}

theorem Head.code_mounted (is : head.region? = some (field, region)) (root : Option String) (next : Nat)
    (inner : Section → β) :
    ∃ rest, head.code root next inner .mounted
      = head.beforeClone root field region inner ++ Code.lines (region.cloneLine field next) ++ rest := by
  obtain ⟨rest, code⟩ := region.code_mounted field next root inner
  refine ⟨rest, ?_⟩
  rw [Head.code, Head.allFeatures, is, List.flatMap_append, Option.toList_some, List.map_singleton,
    List.flatMap_singleton, code, Head.beforeClone]
  simp only [List.append_assoc]

theorem Head.length_beforeClone (inner : Section → β) :
    (head.beforeClone root field region inner).length
      = (head.beforeClone root field region fun _ => ()).length := by
  have same : (head.beforeClone root field region inner).map (Segment.map fun _ => ())
      = head.beforeClone root field region fun _ => () := by
    rw [Head.beforeClone, Head.beforeClone, List.map_append, Region.map_beforeClone,
      ← Head.map_ownFeatures (fun _ : β => ()) head]
    simp only [List.map_flatMap, List.flatMap_map, Feature.code_map]
  rw [← same, List.length_map]

theorem mem_code_of_cloneLines {v : Visit} {x : Origin × String} (binds : x ∈ v.cloneLines path) :
    x ∈ ownLines path .mounted 0 (v.code .mounted) := by
  rcases is : v.head.region? with _ | ⟨field, region⟩
  · simp [Visit.cloneLines, is] at binds
  · obtain ⟨rest, code⟩ := v.head.code_mounted is v.root v.next fun _ => ()
    simp only [Visit.cloneLines, is] at binds
    rw [Visit.code, code, ownLines_append, ownLines_append, Nat.zero_add]
    exact List.mem_append_left _ (List.mem_append_right _ binds)

/-- A region writes what is created, then what stands before its clone, and then binds the clone. -/
theorem setup_region (is : head.region? = some (field, region)) (children : List Node) :
    ∃ back, ((Node.element head children).emit path root next).setup
      = Traced.linesAll (((Node.element head children).emit path root next).code .created)
          ++ Traced.linesAll (Traced.ofSegments path .mounted 0 (head.beforeClone root field region
              (emitAll path 0 (head.innerRoot root next) (head.innerNext next) children).code))
        ++ Visit.cloneLines { head, root, next } path
        ++ back := by
  let inner := emitAll path 0 (head.innerRoot root next) (head.innerNext next) children
  obtain ⟨rest, code⟩ := head.code_mounted is root next inner.code
  have mounted : ((Node.element head children).emit path root next).code .mounted
      = Traced.ofSegments path .mounted 0 (head.code root next inner.code .mounted)
        ++ if head.passes .mounted then inner.code .mounted else [] := rfl
  rw [Emission.setup, mounted, code, Traced.ofSegments_append, Traced.ofSegments_append, Nat.zero_add]
  simp only [Traced.linesAll_append, Visit.cloneLines, is]
  rw [Traced.linesAll_ofSegments_bare _ _ _ (embedded_lines _), ownLines_lines, head.length_beforeClone]
  simp only [List.append_assoc]
  exact ⟨_, rfl⟩

/-- A region keeps all that is created in it out of its own section. -/
theorem path_of_mem_created {children : List Node} (is : head.region? = some (field, region)) {y : Origin × String}
    (member : y ∈ Traced.linesAll (((Node.element head children).emit path root next).code .created)) :
    y.1.path = path := by
  have passes : head.passes .created = false := by
    cases region <;> simp [Head.passes, is, Region.passes]
  have placed : head.placed .created = [] := by
    cases region <;> simp [Head.placed, is, Region.placed]
  rw [Node.emit] at member
  simp only [passes, Bool.false_eq_true, ↓reduceIte, List.append_nil] at member
  rw [Traced.linesAll_ofSegments_bare _ _ _ (by rw [Head.embedded_code, placed]; rfl)] at member
  exact (path_of_mem_ownLines member).1

/-- Before the clone is bound nothing in the region is set up. -/
theorem path_of_mem_beforeClone {nodes : List Node} {place : Nat} {inner : Option String} {y : Origin × String}
    (member : y ∈ Traced.linesAll (Traced.ofSegments path .mounted 0
      (head.beforeClone root field region (emitAll path place inner next nodes).code)))
    (setsUp : y.1.SetsUp) : y.1.path = path := by
  rcases Traced.mem_linesAll_ofSegments member with line | ⟨body, among, inside⟩
  · exact (path_of_mem_ownLines line).1
  · simp only [Head.beforeClone, Code.Segment.embedded_append, Head.embedded_ownFeatures, List.nil_append] at among
    rw [Region.mem_embedded_beforeClone among] at inside
    have hook := hook_of_mem_emitAll inside (by decide)
    rcases setsUp with created | mounted
    · rw [hook] at created
      cases created
    · rw [hook] at mounted
      cases mounted

/-- The clone of a region is bound before anything in the region is set up. -/
theorem clone_precedes {children : List Node} (is : head.region? = some (field, region)) {x y : Origin × String}
    (binds : x ∈ Visit.cloneLines { head, root, next } path)
    (occurs : y ∈ ((Node.element head children).emit path root next).setup) (below : y.1.path ≠ path)
    (setsUp : y.1.SetsUp) : Precedes ((Node.element head children).emit path root next).setup x y := by
  have own := mem_code_of_cloneLines binds
  obtain ⟨back, split⟩ := setup_region is children
  refine precedes_of_setup split binds own (.inr (path_of_mem_ownLines own).2) occurs fun earlier => ?_
  rcases List.mem_append.mp earlier with before | here
  · rcases List.mem_append.mp before with created | opening
    · exact below (path_of_mem_created is created)
    · exact below (path_of_mem_beforeClone opening setsUp)
  · exact below (path_of_mem_ownLines (mem_code_of_cloneLines here)).1

end

end TemplateWeaver
