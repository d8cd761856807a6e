import Mathlib.Algebra.Ring.Nat
import TemplateWeaver.Proofs.Weave.Refinement
import TemplateWeaver.Proofs.Weave.Visit

/-!
How often the code of an element occurs. Regions move the code of their children to where clones are made
and taken away, and conditional ones have the code that takes a clone away in two places. So how often a
line occurs in a section hangs on the regions around its element alone (`multiplicity`), and that number
is exact (`count_content_line`).
-/
namespace TemplateWeaver

open Code (Block Segment Store)
open Code.Segment (embedded ownLines mem_ownLines)

variable {β : Type}

/-! ### Regions around an element -/

namespace Head

def isRegion (h : Head) : Bool :=
  h.region?.isSome

def isRepeated (h : Head) : Bool :=
  match h.region? with
  | some (_, .repeated ..) => true
  | _ => false

end Head

/-- The regions around an element, counted from the nearest one up to the first repeated one, which
    still counts. -/
def regionsToRepeated : List Head → Nat
  | [] => 0
  | head :: outer =>
    match head.region? with
    | none => regionsToRepeated outer
    | some (_, .conditional ..) => regionsToRepeated outer + 1
    | some (_, .repeated ..) => 1

/-- How often what an element writes for a section, its `hook`, stands in the section `part` of the whole,
    given the elements around it, the nearest first. -/
def multiplicity (around : List Head) : (hook part : Section) → Nat
  | .declarations, part => if part = if around.any Head.isRepeated then .mounted else .declarations then 1 else 0
  | .created, part => if part = if around.any Head.isRegion then .mounted else .created then 1 else 0
  | .mounted, part => if part = .mounted then 1 else 0
  | .unmounted, .unmounted => if around.any Head.isRepeated then 0 else 1
  | .unmounted, .mounted => regionsToRepeated around
  | .unmounted, _ => 0

/-- The sections of the children that stand in a section with the element, in its own code or behind it. -/
def Head.outlets (h : Head) (part : Section) : List Section :=
  h.placed part ++ if h.passes part then [part] else []

theorem regionsToRepeated_append (around : List Head) (head : Head) :
    regionsToRepeated (around ++ [head])
      = if around.any Head.isRepeated then regionsToRepeated around
        else regionsToRepeated around + if head.isRegion then 1 else 0 := by
  induction around with
  | nil =>
    rcases found : head.region? with _ | ⟨field, ⟨condition, stopper⟩ | ⟨item, collection, stopper⟩⟩ <;>
      simp [regionsToRepeated, Head.isRegion, found]
  | cons first outer ih =>
    rcases found : first.region? with _ | ⟨field, ⟨condition, stopper⟩ | ⟨item, collection, stopper⟩⟩ <;>
      simp only [List.cons_append, regionsToRepeated, List.any_cons, Head.isRepeated, found, ih, Bool.false_or,
        Bool.true_or, ↓reduceIte]
    split
    · rfl
    · omega

/-- One more element around adds up the sections that it lets through. -/
theorem multiplicity_append (around : List Head) (head : Head) (hook part : Section) :
    multiplicity (around ++ [head]) hook part = ((head.outlets part).map (multiplicity around hook)).sum := by
  have inside : (around ++ [head]).any Head.isRegion = (around.any Head.isRegion || head.isRegion) := by simp
  have copied : (around ++ [head]).any Head.isRepeated = (around.any Head.isRepeated || head.isRepeated) := by simp
  have regions := regionsToRepeated_append around head
  rcases found : head.region? with _ | ⟨field, ⟨condition, stopper⟩ | ⟨item, collection, stopper⟩⟩ <;>
    simp only [Head.isRegion, Head.isRepeated, found] at inside copied regions <;>
    cases hook <;> cases part <;>
    simp only [Head.outlets, Head.placed, Head.passes, Region.placed, Region.passes, found, multiplicity, inside,
      copied, regions, Bool.false_eq_true, ↓reduceIte, List.nil_append, List.append_nil, List.map_cons,
      List.map_nil, List.sum_cons, List.sum_nil] <;>
    generalize around.any Head.isRegion = caught <;>
    generalize around.any Head.isRepeated = cloned <;>
    cases caught <;> cases cloned <;> simp [Nat.add_comm]

/-! ### Counting lines -/

theorem path_of_mem_ownLines {path : List Nat} {hook : Section} {place : Nat} {segments : List (Segment β)}
    {line : Origin × String} (member : line ∈ ownLines path hook place segments) :
    line.1.path = path ∧ line.1.hook = hook := by
  obtain ⟨index, same, -⟩ := mem_ownLines.mp member
  rw [same]
  exact ⟨rfl, rfl⟩

theorem nodup_ownLines (path : List Nat) (hook : Section) (place : Nat) (segments : List (Segment β)) :
    (ownLines path hook place segments).Nodup := by
  induction segments generalizing place with
  | nil => exact List.nodup_nil
  | cons segment rest ih =>
    cases segment with
    | embed content => exact ih (place + 1)
    | line text =>
      refine List.nodup_cons.mpr ⟨?_, ih (place + 1)⟩
      intro member
      obtain ⟨index, same, -⟩ := mem_ownLines.mp member
      simp only [Origin.mk.injEq, true_and] at same
      omega

/-- The lines of traced segments are their own and those of what they embed. -/
theorem count_ofSegments (line : Origin × String) (path : List Nat) (hook : Section) (place : Nat)
    (segments : List (Segment (List Traced))) :
    (Traced.linesAll (Traced.ofSegments path hook place segments)).count line
      = (ownLines path hook place segments).count line
        + ((embedded segments).map fun body => (Traced.linesAll body).count line).sum := by
  induction segments generalizing place with
  | nil => rfl
  | cons segment rest ih =>
    cases segment with
    | line text =>
      simp only [Traced.ofSegments, Traced.ofSegment, Traced.linesAll, Traced.lines, ownLines, embedded,
        List.count_append, List.count_cons, List.count_nil, ih]
      omega
    | embed body =>
      simp only [Traced.ofSegments, Traced.ofSegment, Traced.linesAll, Traced.lines, ownLines, embedded,
        List.count_append, List.map_cons, List.sum_cons, ih]
      omega

theorem ownLines_map {γ : Type} (g : β → γ) (path : List Nat) (hook : Section) (place : Nat)
    (segments : List (Segment β)) :
    ownLines path hook place (segments.map (Segment.map g)) = ownLines path hook place segments := by
  induction segments generalizing place with
  | nil => rfl
  | cons segment rest ih => cases segment <;> simp only [List.map_cons, Segment.map, ownLines, ih]

section
variable {path : List Nat} {root : Option String} {next : Nat} {part : Section} {line : Origin × String}

theorem ownLines_code (head : Head) (inner : Section → β) :
    ownLines path part 0 (head.code root next inner part)
      = ownLines path part 0 (head.code root next (fun _ => ()) part) := by
  rw [← Head.code_map (fun _ => ()) head root next inner part, ownLines_map]

theorem count_emit_element (head : Head) (children : List Node) :
    (Traced.linesAll (((Node.element head children).emit path root next).code part)).count line
      = (ownLines path part 0 (head.code root next (fun _ => ()) part)).count line
        + ((head.outlets part).map fun caught => (Traced.linesAll
            ((emitAll path 0 (head.innerRoot root next) (head.innerNext next) children).code caught)).count line).sum := by
  rw [Node.emit, Traced.linesAll_append, List.count_append, count_ofSegments, Head.embedded_code, Head.outlets,
    List.map_append, List.sum_append, List.map_map, Nat.add_assoc, ownLines_code]
  congr 2
  cases head.passes part <;> simp [Traced.linesAll]

theorem count_emitAll {place index : Nat} {nodes : List Node} {child : Node} (found : nodes[index]? = some child)
    (leads : path ++ [place + index] <+: line.1.path) :
    (Traced.linesAll ((emitAll path place root next nodes).code part)).count line
      = (Traced.linesAll ((child.emit (path ++ [place + index]) root (next + takenAll (nodes.take index))).code
          part)).count line := by
  have same : ∀ other : Origin × String, (other == line) = true → path ++ [place + index] <+: other.1.path := by
    intro other equal
    rwa [eq_of_beq equal]
  rw [List.count, List.countP_eq_length_filter, filter_emitAll found same, ← List.countP_eq_length_filter, ← List.count]

theorem multiplicity_nil (hook part : Section) : multiplicity [] hook part = if part = hook then 1 else 0 := by
  cases hook <;> cases part <;> rfl

/-- A line that an element writes for a section is one of its own there, and in no other section. -/
theorem count_ownLines {head : Head} {hook : Section} {place : Nat} {text : String}
    (written : (head.code root next (fun _ => ()) hook)[place]? = some (.line text)) :
    (ownLines path part 0 (head.code root next (fun _ => ()) part)).count ({ path, hook, place }, text)
      = if part = hook then 1 else 0 := by
  split
  · next same =>
    subst same
    refine List.count_eq_one_of_mem (nodup_ownLines _ _ _ _) ?_
    exact mem_ownLines.mpr ⟨place, by rw [Nat.zero_add], written⟩
  · next other =>
    refine List.count_eq_zero.mpr fun member => other ?_
    exact (path_of_mem_ownLines member).2.symm

theorem count_emitAll_self {place : Nat} (nodes : List Node) (own : line.1.path = path) :
    (Traced.linesAll ((emitAll path place root next nodes).code part)).count line = 0 := by
  refine List.count_eq_zero.mpr fun member => ?_
  obtain ⟨index, child, below, visit, -, elsewhere, -⟩ := mem_emitAll nodes member
  simp [own] at elsewhere

/-- A line that an element writes stands in each section as often as the regions around the element say. -/
theorem count_emit (path : List Nat) {below : List Nat} {node : Node} {visit : Visit} {hook : Section} {place : Nat}
    {text : String} (visited : node.visit root next below = some visit)
    (written : (visit.code hook)[place]? = some (.line text)) :
    (Traced.linesAll ((node.emit path root next).code part)).count ({ path := path ++ below, hook, place }, text)
      = multiplicity visit.around hook part := by
  -- Along the path: each element on it lets through what its region does.
  induction below generalizing node path root next visit part with
  | nil =>
    obtain ⟨head, children, rfl, rfl⟩ := Node.visit_nil visited
    rw [List.append_nil, count_emit_element, count_ownLines written, multiplicity_nil]
    simp only [count_emitAll_self, List.map_const', List.sum_replicate_nat, Nat.mul_zero, Nat.add_zero]
  | cons index below ih =>
    obtain ⟨head, children, child, visit, rfl, found, reached, rfl⟩ := Node.visit_cons visited
    have own : (ownLines path part 0 (head.code root next (fun _ => ()) part)).count
        ({ path := path ++ index :: below, hook, place }, text) = 0 := by
      refine List.count_eq_zero.mpr fun member => ?_
      simpa using (path_of_mem_ownLines member).1
    have split : path ++ index :: below = (path ++ [0 + index]) ++ below := by simp
    have through : ∀ caught, (Traced.linesAll
        ((emitAll path 0 (head.innerRoot root next) (head.innerNext next) children).code caught)).count
          ({ path := path ++ index :: below, hook, place }, text) = multiplicity visit.around hook caught := by
      intro caught
      rw [count_emitAll found (by rw [split]; exact List.prefix_append _ _), split]
      exact ih _ reached written
    rw [count_emit_element, own, Nat.zero_add, Visit.under_around, multiplicity_append]
    simp only [through]

end

/-- Setup and teardown code occurs exactly as often as the regions ask. After a walk without fault in a new
    scope, the sections with all that is embedded in its place are the lines of the by-value recursion; each
    of these is what the element at its origin writes; and each line that an element writes for a section
    stands in every section exactly `multiplicity` times. -/
theorem count_content_line (e : Element) {w w' : Workspace} (acyclic : w.store.Acyclic) (root : Option String)
    (done : e.weave (w.newScope root).1 (w.newScope root).2 = (w', none)) :
    (∀ part, w'.store.content ((w.newScope root).1.buffers part)
      = Traced.forgetAll ((e.emit root 0).code part)) ∧
    (∀ part, ∀ line ∈ Traced.linesAll ((e.emit root 0).code part),
      ∃ visit, e.toNode.visit root 0 line.1.path = some visit ∧
        (visit.code line.1.hook)[line.1.place]? = some (.line line.2)) ∧
    ∀ path visit, e.toNode.visit root 0 path = some visit →
      ∀ hook place text, (visit.code hook)[place]? = some (.line text) →
        ∀ part, (Traced.linesAll ((e.emit root 0).code part)).count ({ path, hook, place }, text)
          = multiplicity visit.around hook part := by
  refine ⟨content_weave acyclic done, fun part line member => ?_,
    fun path visit visited hook place text written part => ?_⟩
  · obtain ⟨below, visit, leads, visited, written⟩ := mem_emit e.toNode member
    exact ⟨visit, by rwa [leads], written⟩
  · exact count_emit [] visited written

/-- What takes the button of `nestedRegions` down stands twice in what is mounted: where its box is hidden and where
    the item is removed. What stops the box stands once. -/
theorem count_content_line_nestedRegions :
    let start := ({} : Workspace).newScope none
    let lines part := Traced.linesAll ((nestedRegions.emit none 0).code part)
    let listener : Origin × String :=
      ({ path := [1, 0], hook := .unmounted, place := 0 }, "go.on['click'].remove(onGo);")
    let label : Origin × String := ({ path := [1, 0], hook := .unmounted, place := 2 }, "stopLabel();")
    let box : Origin × String := ({ path := [1], hook := .unmounted, place := 0 }, "stopBox();")
    ∃ w', nestedRegions.weave start.1 start.2 = (w', none) ∧
      (∀ part, w'.store.content (start.1.buffers part) = Traced.forgetAll ((nestedRegions.emit none 0).code part)) ∧
      ((lines .mounted).count listener = 2 ∧ (lines .unmounted).count listener = 0) ∧
      ((lines .mounted).count label = 2 ∧ (lines .unmounted).count label = 0) ∧
      (lines .mounted).count box = 1 ∧ (lines .unmounted).count box = 0 := by
  intro start lines listener label box
  have done : nestedRegions.weave start.1 start.2 = ((nestedRegions.weave start.1 start.2).1, none) :=
    Prod.ext rfl (by decide +kernel)
  obtain ⟨content, -, counts⟩ := count_content_line nestedRegions Store.acyclic_empty none done
  have listens := counts [1, 0] _ rfl .unmounted 0 listener.2 (by decide +kernel)
  have labels := counts [1, 0] _ rfl .unmounted 2 label.2 (by decide +kernel)
  have shows := counts [1] _ rfl .unmounted 0 box.2 (by decide +kernel)
  exact ⟨_, done, content, ⟨listens .mounted, listens .unmounted⟩, ⟨labels .mounted, labels .unmounted⟩,
    shows .mounted, shows .unmounted⟩

end TemplateWeaver
