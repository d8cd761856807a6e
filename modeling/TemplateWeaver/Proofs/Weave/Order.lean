import TemplateWeaver.Proofs.Text.Trim
import TemplateWeaver.Proofs.Weave.Faults
import TemplateWeaver.Proofs.Weave.Setup

/-!
Definition before use, and children taken down before their clone. Code that takes an element down stands
right before the line that takes the clone around it away, wherever it occurs (`detached_emit`), and an
element is looked up from the clone of the innermost region around it (`root_visit`). Together with the
order of the setup that gives the order in which the code of a template runs (`weave_in_order`).
-/
namespace TemplateWeaver

open Code (Segment Store)
open Code.Segment (embedded ownLines mem_ownLines)

variable {β : Type}

/-! ### Lines before a clone is taken away -/

/-- What occurs in two lists put together occurs in the second, or in the first with the second behind it. -/
theorem occurrence_append {α : Type} {x : α} {xs ys front rest : List α} (split : xs ++ ys = front ++ x :: rest) :
    (∃ more, ys = more ++ x :: rest) ∨ ∃ more, xs = front ++ x :: more ∧ rest = more ++ ys := by
  rcases List.append_eq_append_iff.mp split with ⟨more, -, later⟩ | ⟨more, earlier, later⟩
  · exact .inl ⟨more, later⟩
  · cases more with
    | nil => exact .inl ⟨[], later.symm⟩
    | cons first more =>
      obtain ⟨rfl, rfl⟩ := List.cons.inj later
      exact .inr ⟨more, earlier, rfl⟩

/-- Behind every occurrence of `x` stand lines with `text`, written by the element at `path`, and nothing in
    between but lines that take elements down. -/
def Detached (path : List Nat) (text : String) (x : Origin × String) (lines : List (Origin × String)) : Prop :=
  ∀ front rest, lines = front ++ x :: rest → ∃ between hook place back,
    rest = between ++ ownLines path hook place (Code.lines text : List (Segment Unit)) ++ back ∧
      ∀ line ∈ between, line.1.hook = .unmounted

namespace Detached

variable {path : List Nat} {text : String} {x : Origin × String} {xs ys : List (Origin × String)}

theorem of_not_mem (absent : x ∉ xs) : Detached path text x xs := by
  rintro front rest rfl
  exact absurd (by simp) absent

theorem append (left : Detached path text x xs) (right : Detached path text x ys) :
    Detached path text x (xs ++ ys) := by
  intro front rest split
  rcases occurrence_append split with ⟨more, later⟩ | ⟨more, earlier, rfl⟩
  · exact right more rest later
  · obtain ⟨between, hook, place, back, rfl, down⟩ := left front more earlier
    exact ⟨between, hook, place, back ++ ys, by simp, down⟩

/-- Lines that take elements down may stand before the lines with `text`. -/
theorem cover {hook : Section} {place : Nat} (down : ∀ line ∈ xs, line.1.hook = .unmounted)
    (right : Detached path text x (ownLines path hook place (Code.lines text : List (Segment Unit)) ++ ys)) :
    Detached path text x (xs ++ (ownLines path hook place (Code.lines text : List (Segment Unit)) ++ ys)) := by
  intro front rest split
  rcases occurrence_append split with ⟨more, later⟩ | ⟨more, earlier, rfl⟩
  · exact right more rest later
  · refine ⟨more, hook, place, ys, by simp, fun line member => down line ?_⟩
    simp [earlier, member]

end Detached

/-! ### Regions -/

/-- Wherever segments embed the code that takes children down, the lines of `text` follow. -/
def Detaching (text : String) (segments : List (Segment Section)) : Prop :=
  ∀ front back, segments = front ++ .embed .unmounted :: back → Code.lines text <+: back

namespace Detaching

variable {text : String} {xs ys : List (Segment Section)}

theorem bare (none : Section.unmounted ∉ embedded xs) : Detaching text xs := by
  rintro front back rfl
  exact absurd (Code.Segment.mem_embedded.mpr (by simp)) none

theorem append (left : Detaching text xs) (right : Detaching text ys) : Detaching text (xs ++ ys) := by
  intro front back split
  rcases occurrence_append split with ⟨more, later⟩ | ⟨more, earlier, rfl⟩
  · exact right more back later
  · exact (left front more earlier).trans (List.prefix_append more ys)

theorem embed (follows : Code.lines text <+: xs) (rest : Detaching text xs) :
    Detaching text (.embed .unmounted :: xs) := by
  intro front back split
  cases front with
  | nil =>
    obtain ⟨-, rfl⟩ := List.cons.inj split
    exact follows
  | cons first front => exact rest front back (List.cons.inj split).2

theorem tail {segment : Segment Section} (detaching : Detaching text (segment :: xs)) : Detaching text xs := by
  rintro front back rfl
  exact detaching (segment :: front) back rfl

end Detaching

/-- The line that takes the clone of a region away. -/
def Region.detachLine (field : String) (next : Nat) (region : Region) : String :=
  region.childRoot field next ++ ".remove();"

/-- A region takes its children down right before it takes the clone away. -/
theorem Region.detaching (field : String) (next : Nat) (root : Option String) (region : Region) (part : Section) :
    Detaching (region.detachLine field next) ((region.feature field next id).code root part) := by
  cases region with
  | conditional condition stopper =>
    have clone : Detaching ((Region.conditional condition stopper).detachLine field next)
        (detachClone field { created := .created, mounted := .mounted, unmounted := .unmounted }) := by
      refine .embed ?_ (.bare (by simp))
      rw [Code.allLines, List.flatMap_cons]
      exact List.prefix_append _ _
    cases part with
    | declarations | created => exact .bare (by simp [feature, Feature.code, conditionalCode])
    | mounted =>
      refine .append (.append (.append (.append (.append (.append ?_ ?_) ?_) clone) ?_) ?_) ?_ <;>
        exact .bare (by simp [embedded])
    | unmounted => exact .append (.append (.bare (by simp)) clone) (.bare (by simp))
  | «repeated» item collection stopper =>
    cases part with
    | declarations | created => exact .bare (by simp [feature, Feature.code, repeatedCode])
    | mounted =>
      simp only [feature, Feature.code, repeatedCode, List.append_assoc, List.singleton_append]
      refine .append ?_ (.append ?_ (.append ?_ (.append ?_ (.append ?_ (.embed ?_ ?_)))))
      · exact .bare (by simp)
      · exact .bare (by simp [removeClones])
      · exact .bare (by simp)
      · exact .bare (by simp [embedded])
      · exact .bare (by simp)
      · rw [Code.allLines, List.flatMap_cons]
        exact List.prefix_append _ _
      · exact .bare (by simp)
    | unmounted => exact .bare (by simp [feature, Feature.code, repeatedCode, removeClones])

section
variable {path : List Nat} {root : Option String} {next : Nat} {head : Head} {text : String} {x : Origin × String}

theorem Head.code_labels (h : Head) (root : Option String) (next : Nat) (inner : Section → β) (part : Section) :
    h.code root next inner part = (h.code root next id part).map (Segment.map inner) :=
  (Head.code_map inner h root next id part).symm

theorem Head.detaching {field : String} {region : Region} (is : head.region? = some (field, region))
    (root : Option String) (next : Nat) (part : Section) :
    Detaching (region.detachLine field next) (head.code root next id part) := by
  rw [Head.code, Head.allFeatures, is, List.flatMap_append, Option.toList_some, List.map_singleton,
    List.flatMap_singleton]
  refine .append (.bare ?_) (region.detaching field next root part)
  rw [Head.embedded_ownFeatures]
  simp

/-- Segments that embed the code of children, none of it a line `x` but what takes children down. -/
theorem detached_ofSegments {bodies : Section → List Traced} {hook : Section} {place : Nat} (below : x.1.path ≠ path)
    (absent : ∀ caught, caught ≠ .unmounted → x ∉ Traced.linesAll (bodies caught))
    (down : ∀ line ∈ Traced.linesAll (bodies .unmounted), line.1.hook = .unmounted)
    (segments : List (Segment Section)) (detaching : Detaching text segments) :
    Detached path text x
      (Traced.linesAll (Traced.ofSegments path hook place (segments.map (Segment.map bodies)))) := by
  induction segments generalizing place with
  | nil => exact .of_not_mem (by simp [Traced.ofSegments, Traced.linesAll])
  | cons segment rest ih =>
    have later : Detached path text x (Traced.linesAll
        (Traced.ofSegments path hook (place + 1) (rest.map (Segment.map bodies)))) := ih detaching.tail
    rw [List.map_cons, Traced.ofSegments, Traced.linesAll]
    cases segment with
    | line own =>
      refine .append (.of_not_mem fun member => below ?_) later
      obtain rfl := List.mem_singleton.mp member
      rfl
    | embed caught =>
      by_cases takes : caught = .unmounted
      · subst takes
        obtain ⟨more, rfl⟩ := detaching [] rest rfl
        rw [List.map_append, Code.map_lines, Traced.ofSegments_append, Traced.linesAll_append,
          Traced.linesAll_ofSegments_bare _ _ _ (embedded_lines _), ownLines_lines] at later ⊢
        exact .cover down later
      · exact .append (.of_not_mem (absent caught takes)) later

/-- A region around children that are no regions: what takes them down is followed by the line that takes the
    clone away. -/
theorem detached_region {children : List Node} {field : String} {region : Region}
    (is : head.region? = some (field, region)) (below : x.1.path ≠ path)
    (absent : ∀ caught, caught ≠ .unmounted → x ∉ Traced.linesAll
      ((emitAll path 0 (head.innerRoot root next) (head.innerNext next) children).code caught)) (part : Section) :
    Detached path (region.detachLine field next) x
      (Traced.linesAll (((Node.element head children).emit path root next).code part)) := by
  rw [Node.emit, Traced.linesAll_append]
  refine .append ?_ (.of_not_mem ?_)
  · rw [Head.code_labels]
    exact detached_ofSegments below absent (fun line member => hook_of_mem_emitAll member (by decide)) _
      (head.detaching is root next part)
  · -- Only declarations pass on, and what takes an element down is none.
    by_cases through : head.passes part = true
    · rw [if_pos through]
      refine absent part ?_
      rintro rfl
      cases region <;> simp [Head.passes, is, Region.passes] at through
    · rw [if_neg through]
      simp [Traced.linesAll]

/-! ### All around a region -/

variable {region : List Nat}

theorem detached_of_embedded (below : x.1.path ≠ path) (hook : Section) (place : Nat)
    (segments : List (Segment (List Traced)))
    (inner : ∀ body ∈ embedded segments, Detached region text x (Traced.linesAll body)) :
    Detached region text x (Traced.linesAll (Traced.ofSegments path hook place segments)) := by
  induction segments generalizing place with
  | nil => exact .of_not_mem (by simp [Traced.ofSegments, Traced.linesAll])
  | cons segment rest ih =>
    cases segment with
    | line own =>
      refine .append (.of_not_mem fun member => below ?_) (ih (place + 1) inner)
      obtain rfl := List.mem_singleton.mp member
      rfl
    | embed body =>
      refine .append (inner body List.mem_cons_self) (ih (place + 1) fun other member => ?_)
      exact inner other (List.mem_cons_of_mem _ member)

theorem detached_emit_element {children : List Node} (below : x.1.path ≠ path)
    (inner : ∀ caught, Detached region text x (Traced.linesAll
      ((emitAll path 0 (head.innerRoot root next) (head.innerNext next) children).code caught))) (part : Section) :
    Detached region text x (Traced.linesAll (((Node.element head children).emit path root next).code part)) := by
  rw [Node.emit, Traced.linesAll_append]
  refine .append (detached_of_embedded below part 0 _ fun body member => ?_) ?_
  · rw [Head.embedded_code, List.mem_map] at member
    obtain ⟨caught, -, rfl⟩ := member
    exact inner caught
  · by_cases through : head.passes part = true
    · rw [if_pos through]
      exact inner part
    · rw [if_neg through]
      exact .of_not_mem (by simp [Traced.linesAll])

theorem detached_emitAll {nodes : List Node} {index : Nat} {child : Node} (found : nodes[index]? = some child)
    (leads : path ++ [index] <+: x.1.path) {part : Section}
    (inside : Detached region text x (Traced.linesAll
      ((child.emit (path ++ [index]) root (next + takenAll (nodes.take index))).code part))) :
    Detached region text x (Traced.linesAll ((emitAll path 0 root next nodes).code part)) := by
  obtain ⟨front, back, split, others⟩ := split_emitAll found
  rw [split, Nat.zero_add]
  rw [Nat.zero_add] at others
  refine .append (.append (.of_not_mem fun member => ?_) inside) (.of_not_mem fun member => ?_)
  · exact others x (List.mem_append_left _ member) leads
  · exact others x (List.mem_append_right _ member) leads

/-- Without regions around an element, what takes it down stays in its section. -/
theorem multiplicity_plain {around : List Head} (plain : ∀ h ∈ around, h.region? = none) {part : Section}
    (other : part ≠ .unmounted) : multiplicity around .unmounted part = 0 := by
  have none : regionsToRepeated around = 0 := by
    induction around with
    | nil => rfl
    | cons head outer ih =>
      rw [regionsToRepeated, plain head List.mem_cons_self]
      exact ih fun h member => plain h (List.mem_cons_of_mem _ member)
  cases part with
  | declarations | created => rfl
  | mounted => exact none
  | unmounted => exact absurd rfl other

theorem around_of_under {visit v : Visit} {inner : List Head}
    (around : (visit.under head).around = inner ++ (v.under head).head :: (v.under head).around) :
    visit.around = inner ++ v.head :: v.around := by
  simp only [Visit.under_around, Visit.under_head] at around
  rw [← List.cons_append, ← List.append_assoc] at around
  exact List.append_cancel_right around

/-- Wherever a line occurs that takes an element down, the line follows that takes the clone of the innermost
    region around the element away. -/
theorem detached_emit (path : List Nat) {outer below : List Nat} {node : Node} {v visit : Visit} {field : String}
    {kind : Region} (reached : node.visit root next outer = some v) (is : v.head.region? = some (field, kind))
    (visited : node.visit root next (outer ++ below) = some visit) {inner : List Head}
    (around : visit.around = inner ++ v.head :: v.around) (plain : ∀ h ∈ inner, h.region? = none) {place : Nat}
    (written : (visit.code .unmounted)[place]? = some (.line text)) (part : Section) :
    Detached (path ++ outer) (kind.detachLine field v.next)
      ({ path := path ++ (outer ++ below), hook := .unmounted, place }, text)
      (Traced.linesAll ((node.emit path root next).code part)) := by
  induction outer generalizing node path root next v visit part with
  | nil =>
    obtain ⟨head, children, rfl, rfl⟩ := Node.visit_nil reached
    cases below with
    | nil =>
      cases visited
      simp at around
    | cons index below =>
      rw [List.nil_append] at visited
      obtain ⟨_, _, child, visit, same, found, deeper, rfl⟩ := Node.visit_cons visited
      cases same
      obtain rfl : visit.around = inner := List.append_cancel_right around
      rw [List.append_nil, List.nil_append]
      refine detached_region is (by simp) (fun caught other member => ?_) part
      have split : path ++ index :: below = (path ++ [0 + index]) ++ below := by simp
      have occurs := List.count_pos_iff.mpr member
      rw [count_emitAll found (by rw [split]; exact List.prefix_append _ _), split,
        count_emit _ deeper written, multiplicity_plain plain other] at occurs
      omega
  | cons index outer ih =>
    obtain ⟨head, children, child, visit, rfl, found, deeper, rfl⟩ := Node.visit_cons visited
    rw [Node.visit_child found] at reached
    obtain ⟨v, within, rfl⟩ := Option.map_eq_some_iff.mp reached
    have split : path ++ (index :: outer ++ below) = (path ++ [index]) ++ (outer ++ below) := by simp
    have shift : path ++ index :: outer = (path ++ [index]) ++ outer := by simp
    rw [split, shift]
    refine detached_emit_element (by simp) (fun caught => ?_) part
    exact detached_emitAll found (List.prefix_append _ _)
      (ih _ within is deeper (around_of_under around) written caught)

/-! ### Where elements are found from -/

/-- Outside all regions elements are found from the root of the whole. -/
theorem root_visit_plain {below : List Nat} {node : Node} {visit : Visit}
    (visited : node.visit root next below = some visit) (plain : ∀ h ∈ visit.around, h.region? = none) :
    visit.root = root := by
  induction below generalizing node root next visit with
  | nil =>
    obtain ⟨head, children, rfl, rfl⟩ := Node.visit_nil visited
    rfl
  | cons index below ih =>
    obtain ⟨head, children, child, visit, rfl, found, deeper, rfl⟩ := Node.visit_cons visited
    have none : head.region? = none := plain head (by simp)
    have same : visit.root = head.innerRoot root next := ih deeper fun h member => plain h (by simp [member])
    simpa [Head.innerRoot, none] using same

/-- Elements in a region are found from the clone of the innermost one. -/
theorem root_visit {outer below : List Nat} {node : Node} {v visit : Visit} {field : String} {kind : Region}
    (reached : node.visit root next outer = some v) (is : v.head.region? = some (field, kind))
    (visited : node.visit root next (outer ++ below) = some visit) {inner : List Head}
    (around : visit.around = inner ++ v.head :: v.around) (plain : ∀ h ∈ inner, h.region? = none) :
    visit.root = some (kind.childRoot field v.next) := by
  obtain ⟨children, leads⟩ := Node.visit_append reached
  rw [leads] at visited
  obtain ⟨u, within, rfl⟩ := Option.map_eq_some_iff.mp visited
  have near : u.around = inner ++ [v.head] :=
    List.append_cancel_right (around.trans (List.append_cons inner v.head v.around))
  cases below with
  | nil =>
    cases within
    simp at near
  | cons index below =>
    obtain ⟨_, _, child, u, same, found, deeper, rfl⟩ := Node.visit_cons within
    cases same
    obtain rfl : u.around = inner := List.append_cancel_right near
    have same : u.root = v.head.innerRoot v.root v.next := root_visit_plain deeper plain
    simpa [Head.innerRoot, is] using same

/-! ### The elements around one -/

theorem mem_around {below : List Nat} {node : Node} {visit : Visit} (visited : node.visit root next below = some visit)
    {h : Head} (member : h ∈ visit.around) :
    ∃ outer rest u, below = outer ++ rest ∧ rest ≠ [] ∧ node.visit root next outer = some u ∧ u.head = h := by
  induction below generalizing node root next visit with
  | nil =>
    obtain ⟨head, children, rfl, rfl⟩ := Node.visit_nil visited
    cases member
  | cons index below ih =>
    obtain ⟨head, children, child, visit, rfl, found, deeper, rfl⟩ := Node.visit_cons visited
    rcases List.mem_append.mp member with nearer | last
    · obtain ⟨outer, rest, u, rfl, some, reached, rfl⟩ := ih deeper nearer
      exact ⟨index :: outer, rest, u.under head, rfl, some, by rw [Node.visit_child found, reached]; rfl, rfl⟩
    · obtain rfl := List.mem_singleton.mp last
      exact ⟨[], index :: below, _, rfl, by simp, rfl, rfl⟩

/-- The elements around one are those between it and another around it, that one, and those around that. -/
theorem around_visit {outer below : List Nat} {node : Node} {v visit : Visit}
    (reached : node.visit root next outer = some v) (visited : node.visit root next (outer ++ below) = some visit)
    (deeper : below ≠ []) :
    ∃ inner, visit.around = inner ++ v.head :: v.around ∧
      ∀ h ∈ inner, ∃ front back u, below = front ++ back ∧ front ≠ [] ∧ back ≠ [] ∧
        node.visit root next (outer ++ front) = some u ∧ u.head = h := by
  obtain ⟨children, leads⟩ := Node.visit_append reached
  rw [leads] at visited
  obtain ⟨u, within, rfl⟩ := Option.map_eq_some_iff.mp visited
  cases below with
  | nil => exact absurd rfl deeper
  | cons index below =>
    obtain ⟨_, _, child, u, same, found, farther, rfl⟩ := Node.visit_cons within
    cases same
    refine ⟨u.around, by simp, fun h member => ?_⟩
    obtain ⟨front, back, w, rfl, some, near, rfl⟩ := mem_around farther member
    refine ⟨index :: front, back, { w with around := w.around ++ [v.head] ++ v.around }, rfl, by simp, some, ?_, rfl⟩
    rw [leads, Node.visit_child found, near]
    rfl

end

/-! ### Definition before use -/

/-- The element at `outer` is a region around the one at `path`. -/
structure RegionAround (e : Element) (path outer : List Nat) (v : Visit) (field : String) (region : Region) : Prop where
  leads : outer <+: path
  proper : outer ≠ path
  visited : e.toNode.visit none 0 outer = some v
  is : v.head.region? = some (field, region)

/-- It is the innermost one. -/
structure Innermost (e : Element) (path outer : List Nat) (v : Visit) (field : String) (region : Region) : Prop
    extends RegionAround e path outer v field region where
  last : ∀ other u name kind, RegionAround e path other u name kind → other <+: outer

/-- The lines `lookup` that find the element at `path` occur once and before all else that sets the element up.
    They come after the clones of all regions around it are bound, the outermost first, and search from the clone
    of the innermost region, or from the root where there is none. -/
structure SetUpInOrder (e : Element) (path : List Nat) (visit : Visit) (lookup : List (Origin × String)) : Prop where
  found : lookup ≠ []
  once : ∀ x ∈ lookup, (e.emit none 0).setup.count x = 1
  first : ∀ x ∈ lookup, ∀ y ∈ (e.emit none 0).setup, y.1.path = path → y.1.SetsUp → y ∉ lookup →
    Precedes (e.emit none 0).setup x y
  bound : ∀ outer v field region, RegionAround e path outer v field region →
    v.cloneLines outer ≠ [] ∧ ∀ x ∈ v.cloneLines outer, ∀ y ∈ lookup, Precedes (e.emit none 0).setup x y
  nested : ∀ outer v field region inner u name kind, RegionAround e path outer v field region →
    RegionAround e path inner u name kind → outer <+: inner → outer ≠ inner →
      ∀ x ∈ v.cloneLines outer, ∀ y ∈ u.cloneLines inner, Precedes (e.emit none 0).setup x y
  top : (∀ outer v field region, ¬ RegionAround e path outer v field region) → visit.root = none
  clone : ∀ outer v field region, Innermost e path outer v field region →
    visit.root = some (region.childRoot field v.next)

section
variable {e : Element} {path outer : List Nat} {v visit : Visit} {field : String} {region : Region}

/-- Between the innermost region and the element there is no other. -/
theorem Innermost.around (innermost : Innermost e path outer v field region) {below : List Nat}
    (split : path = outer ++ below) (visited : e.toNode.visit none 0 path = some visit) :
    ∃ inner, visit.around = inner ++ v.head :: v.around ∧ ∀ h ∈ inner, h.region? = none := by
  obtain ⟨⟨leads, proper, reached, is⟩, last⟩ := innermost
  subst split
  obtain ⟨inner, around, between⟩ := around_visit reached visited fun empty => proper (by simp [empty])
  refine ⟨inner, around, fun h member => ?_⟩
  obtain ⟨front, back, u, rfl, some, more, near, rfl⟩ := between h member
  rcases found : u.head.region? with _ | ⟨name, kind⟩
  · rfl
  · have inside := last (outer ++ front) u name kind ⟨⟨back, by simp⟩, by simpa using more, near, found⟩
    have shorter := inside.length_le
    rw [List.length_append] at shorter
    exact absurd (List.eq_nil_of_length_eq_zero (by omega)) some

theorem ownLines_ne_nil {hook : Section} {place : Nat} {text : String} {c : Char} (member : c ∈ text.toList)
    (solid : Text.isBlank c = false) : ownLines path hook place (Code.lines text : List (Segment Unit)) ≠ [] := by
  have some : (Code.lines text : List (Segment Unit)) ≠ [] := Code.lines_ne_nil member solid
  have bare : embedded (Code.lines text : List (Segment Unit)) = [] := embedded_lines text
  revert some bare
  rcases (Code.lines text : List (Segment Unit)) with _ | ⟨_ | _, _⟩ <;> simp [ownLines, embedded]

theorem cloneLines_ne_nil (is : v.head.region? = some (field, region)) (outer : List Nat) :
    v.cloneLines outer ≠ [] := by
  rw [Visit.cloneLines, is]
  have ends : ';' ∈ (region.cloneLine field v.next).toList := by
    cases region <;> rw [Region.cloneLine, String.toList_append] <;> exact List.mem_append_right _ (by decide)
  exact ownLines_ne_nil ends rfl

theorem mem_lookupLine (root : Option String) (field elementId : String) :
    ';' ∈ (lookupLine root field elementId).toList := by
  cases root <;> rw [lookupLine, String.toList_append] <;> exact List.mem_append_right _ (by decide)

theorem mem_detachLine (field : String) (next : Nat) (region : Region) :
    ';' ∈ (region.detachLine field next).toList := by
  rw [Region.detachLine, String.toList_append]
  exact List.mem_append_right _ (by decide)

/-- An element with a field has an id to be found by, where the walk comes to its end. -/
theorem exists_elementId {scope : Scope} {w w' : Workspace} (done : e.weave scope w = (w', none))
    (visited : e.toNode.visit none 0 path = some visit) {info : Info} (given : visit.head.info = some info)
    (named : info.field = some field) : ∃ elementId, visit.head.elementId? = some elementId := by
  obtain ⟨children, member⟩ := exists_mem_stops [] visited
  have sound := faultless_of_weave (show e.toNode.weave scope w = (w', none) from done) [] member
  rcases found : visit.head.elementId? with _ | elementId
  · simp [Stop.fault?, Head.fault?, given, named, found] at sound
  · exact ⟨elementId, rfl⟩

/-- The clone of a region is bound before all that sets up elements in the region, in the whole template. -/
theorem clone_precedes_emit (reached : e.toNode.visit none 0 outer = some v)
    (is : v.head.region? = some (field, region)) {x y : Origin × String} (binds : x ∈ v.cloneLines outer)
    (occurs : y ∈ (e.emit none 0).setup) (leads : outer <+: y.1.path) (proper : y.1.path ≠ outer)
    (setsUp : y.1.SetsUp) : Precedes (e.emit none 0).setup x y := by
  obtain ⟨path, hook⟩ := path_of_mem_ownLines (mem_code_of_cloneLines binds)
  refine precedes_emit [] reached ?_ leads (.inr hook) setsUp occurs fun children there => ?_
  · rw [path]
    exact List.prefix_refl outer
  · exact clone_precedes is binds there proper setsUp

theorem setUpInOrder (visited : e.toNode.visit none 0 path = some visit) {info : Info}
    (given : visit.head.info = some info) (named : info.field = some field) {elementId : String}
    (identified : visit.head.elementId? = some elementId) :
    SetUpInOrder e path visit
      (ownLines path .created 0 (Code.lines (lookupLine visit.root field elementId) : List (Segment Unit))) := by
  let lookup := ownLines path .created 0 (Code.lines (lookupLine visit.root field elementId) : List (Segment Unit))
  have own : ∀ x ∈ lookup, x.1.path = path ∧ x.1.hook = .created := fun x member => path_of_mem_ownLines member
  have once : ∀ x ∈ lookup, (e.emit none 0).setup.count x = 1 := by
    intro x member
    exact count_setup [] visited (mem_code_of_lookup given named identified member) (.inl (own x member).2)
  refine { found := ?_, once, first := ?_, bound := ?_, nested := ?_, top := ?_, clone := ?_ }
  · exact ownLines_ne_nil (mem_lookupLine _ _ _) rfl
  · intro x inside y occurs leads setsUp other
    refine precedes_emit [] visited ?_ ?_ (.inl (own x inside).2) setsUp occurs fun children there => ?_
    · rw [(own x inside).1]
      exact List.prefix_refl path
    · rw [leads]
      exact List.prefix_refl path
    · exact lookup_precedes given named identified inside there other
  · intro outer v field region around
    refine ⟨cloneLines_ne_nil around.is outer, fun x binds y inside => ?_⟩
    obtain ⟨leads, hook⟩ := own y inside
    have occurs : y ∈ (e.emit none 0).setup :=
      mem_setup [] visited (mem_code_of_lookup given named identified inside) (.inl hook)
    refine clone_precedes_emit around.visited around.is binds occurs ?_ ?_ (.inl hook)
    · rw [leads]
      exact around.leads
    · rw [leads]
      exact around.proper.symm
  · intro outer v field region inner u name kind around within leads proper x binds y inside
    have written := mem_code_of_cloneLines inside
    obtain ⟨here, hook⟩ := path_of_mem_ownLines written
    have occurs : y ∈ (e.emit none 0).setup := mem_setup [] within.visited written (.inr hook)
    refine clone_precedes_emit around.visited around.is binds occurs ?_ ?_ (.inr hook)
    · rwa [here]
    · rw [here]
      exact proper.symm
  · intro alone
    refine root_visit_plain visited fun h member => ?_
    obtain ⟨outer, rest, u, rfl, more, near, rfl⟩ := mem_around visited member
    rcases found : u.head.region? with _ | ⟨name, kind⟩
    · rfl
    · exact absurd ⟨⟨rest, rfl⟩, by simpa using more, near, found⟩ (alone outer u name kind)
  · intro outer v field region innermost
    obtain ⟨below, rfl⟩ := innermost.leads
    obtain ⟨inner, around, plain⟩ := innermost.around rfl visited
    exact root_visit innermost.visited innermost.is visited around plain

end

/-- Elements are defined before they are used, and taken down before the clone that they are in. After a walk
    without fault in a new scope the sections hold the code of the by-value recursion. Reading what is created and
    then what is mounted, each element with a field is looked up in order (`SetUpInOrder`). And in every section
    each line that takes an element in a region down is followed by the line that takes the clone of the innermost
    region away, with nothing in between but lines that take elements down. -/
theorem weave_in_order (e : Element) {w w' : Workspace} (acyclic : w.store.Acyclic)
    (done : e.weave (w.newScope none).1 (w.newScope none).2 = (w', none)) :
    (∀ part, w'.store.content ((w.newScope none).1.buffers part) = Traced.forgetAll ((e.emit none 0).code part)) ∧
    (∀ path visit info field, e.toNode.visit none 0 path = some visit → visit.head.info = some info →
      info.field = some field →
        ∃ elementId, visit.head.elementId? = some elementId ∧
          SetUpInOrder e path visit
            (ownLines path .created 0 (Code.lines (lookupLine visit.root field elementId) : List (Segment Unit)))) ∧
    ∀ path outer v field region, Innermost e path outer v field region →
      (Code.lines (region.detachLine field v.next) : List (Segment Unit)) ≠ [] ∧
        ∀ part place text, Detached outer (region.detachLine field v.next) ({ path, hook := .unmounted, place }, text)
          (Traced.linesAll ((e.emit none 0).code part)) := by
  refine ⟨content_weave acyclic done, ?_, ?_⟩
  · intro path visit info field visited given named
    obtain ⟨elementId, identified⟩ := exists_elementId done visited given named
    exact ⟨elementId, identified, setUpInOrder visited given named identified⟩
  · intro path outer v field region innermost
    refine ⟨Code.lines_ne_nil (mem_detachLine _ _ _) rfl, fun part place text => ?_⟩
    by_cases occurs : ({ path, hook := .unmounted, place }, text) ∈ Traced.linesAll ((e.emit none 0).code part)
    · obtain ⟨below, visit, leads, visited, written⟩ := mem_emit e.toNode occurs
      obtain rfl : path = below := leads
      obtain ⟨rest, rfl⟩ := innermost.leads
      obtain ⟨inner, around, plain⟩ := innermost.around rfl visited
      exact detached_emit [] innermost.visited innermost.is visited around plain written part
    · exact .of_not_mem occurs

/-- The button of `nestedRegions`: the clone for an item, the clone of the box, the lookup, and what takes the
    button down before its box. -/
theorem weave_in_order_nestedRegions :
    let setup := (nestedRegions.emit none 0).setup
    let item : Origin × String := ({ path := [], hook := .mounted, place := 7 },
      "var __x0 = list_childTemplate.clone(true);")
    let box : Origin × String := ({ path := [1], hook := .mounted, place := 8 },
      "box_child = box_childTemplate.clone(true);")
    let lookup : Origin × String := ({ path := [1, 0], hook := .created, place := 0 },
      "go = box_child.id == 'go' ? box_child : box_child.query('#go');")
    let start := ({} : Workspace).newScope none
    (∃ w', nestedRegions.weave start.1 start.2 = (w', none)) ∧ Precedes setup item box ∧ Precedes setup item lookup ∧
      Precedes setup box lookup ∧
      Detached [1] "box_child.remove();"
        ({ path := [1, 0], hook := .unmounted, place := 0 }, "go.on['click'].remove(onGo);")
        (Traced.linesAll ((nestedRegions.emit none 0).code .mounted)) := by
  intro setup item box lookup start
  have done : nestedRegions.weave start.1 start.2 = ((nestedRegions.weave start.1 start.2).1, none) :=
    Prod.ext rfl (by decide +kernel)
  obtain ⟨-, setUp, tornDown⟩ := weave_in_order nestedRegions Store.acyclic_empty done
  obtain ⟨elementId, identified, order⟩ := setUp [1, 0] _ _ "go" rfl rfl rfl
  obtain rfl : "go" = elementId := Option.some.inj identified
  have outer : RegionAround nestedRegions [1, 0] [] _ "list" (.repeated "item" "items" "stopList") :=
    ⟨by decide, by decide, rfl, rfl⟩
  have inner : RegionAround nestedRegions [1, 0] [1] _ "box" (.conditional "open" "stopBox") :=
    ⟨by decide, by decide, rfl, rfl⟩
  have last : ∀ other u name kind, RegionAround nestedRegions [1, 0] other u name kind → other <+: [1] := by
    intro other u name kind around
    refine List.prefix_of_prefix_length_le around.leads inner.leads (Nat.le_of_lt_succ ?_)
    exact Nat.lt_of_le_of_ne around.leads.length_le fun same => around.proper (around.leads.eq_of_length same)
  have looks : lookup ∈ ownLines [1, 0] .created 0
      (Code.lines (lookupLine (some "box_child") "go" "go") : List (Segment Unit)) := by decide +kernel
  refine ⟨⟨_, done⟩, ?_, ?_, ?_, ?_⟩
  · exact order.nested _ _ _ _ _ _ _ _ outer inner (by decide) (by decide) item (by decide +kernel) box
      (by decide +kernel)
  · exact (order.bound _ _ _ _ outer).2 item (by decide +kernel) lookup looks
  · exact (order.bound _ _ _ _ inner).2 box (by decide +kernel) lookup looks
  · exact (tornDown _ _ _ _ _ ⟨inner, last⟩).2 .mounted 0 _

end TemplateWeaver
