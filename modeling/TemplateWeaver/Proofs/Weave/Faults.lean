import TemplateWeaver.Proofs.Weave.Visit

/-!
What a fault leaves behind. Whether an element is at fault depends on the element alone
(`Head.fault?`). Weaving runs the hooks of the elements in the order of their start tags, each in the
scope that the regions around it give (`weave_eq_run`), so it ends at the first element at fault, with
what the elements before it have written (`weave_ends_at_first_fault`).
-/
namespace TemplateWeaver

open Code (BufferId)

variable {β : Type}

/-! ### Faults of single elements -/

/-- What the metadata asks for that takes a field, in the order in which it is looked at. -/
def Info.capabilities (info : Info) : List Capability :=
  (if info.events.isEmpty then [] else [.listeners])
    ++ (if info.attributes.isEmpty && info.content.isNone then [] else [.bindings])
    ++ info.component.toList.map (fun _ => .component)
    ++ info.region.toList.map fun
      | .conditional .. => .conditional
      | .repeated .. => .repeated

/-- The fault of an element by itself: a field without an id to find the element by, something that takes
    a field without one, or a region around another number of elements than one. -/
def Head.fault? (h : Head) (children : List Node) : Option Fault :=
  h.info.bind fun info =>
    match info.field with
    | none => info.capabilities.head?.map (.missingField h.tag)
    | some field =>
      if h.elementId?.isNone then some (.missingElementId field h.tag)
      else if info.region.isSome ∧ (elementHeads children).length ≠ 1 then
        some (.regionChildCount field (elementHeads children).length)
      else none

namespace Head

variable {h : Head} {info : Info}

/-- Without a field, the first thing that takes one is a fault. -/
theorem features_of_fieldless {children : List Node} (given : h.info = some info) (absent : info.field = none)
    (counter : CounterId) (w : Workspace) :
    h.features children counter w = match info.capabilities.head? with
      | some capability => .error (.missingField h.tag capability)
      | none => .ok ([], w) := by
  simp only [features, given, plainFeatures, fieldFeature, needField, regionFeature, regionField, absent,
    Info.capabilities]
  generalize info.events.isEmpty = silent
  generalize (info.attributes.isEmpty && info.content.isNone) = unbound
  rcases info.component with _ | component <;>
    rcases info.region with _ | ⟨condition, stopper⟩ | ⟨item, collection, stopper⟩ <;>
    cases silent <;> cases unbound <;> rfl

theorem features_of_unidentified {field : String} {children : List Node} (given : h.info = some info)
    (named : info.field = some field) (absent : h.elementId? = none) (counter : CounterId) (w : Workspace) :
    h.features children counter w = .error (.missingElementId field h.tag) := by
  simp only [features, given, plainFeatures, fieldFeature, named, absent]
  rfl

theorem plainFeatures_of_field {field elementId : String} (named : info.field = some field)
    (found : h.elementId? = some elementId) :
    ∃ plain, (h.plainFeatures info : Except Fault (List (Feature β))) = .ok plain := by
  simp only [plainFeatures, fieldFeature, needField, named, found]
  generalize info.events.isEmpty = silent
  generalize (info.attributes.isEmpty && info.content.isNone) = unbound
  rcases info.component with _ | component <;> cases silent <;> cases unbound <;> exact ⟨_, rfl⟩

/-- With a field that is found, only a region can be at fault. -/
theorem features_of_field {field elementId : String} (given : h.info = some info) (named : info.field = some field)
    (found : h.elementId? = some elementId) (children : List Node) (counter : CounterId) (w : Workspace) :
    if info.region.isSome ∧ (elementHeads children).length ≠ 1 then
      h.features children counter w = .error (.regionChildCount field (elementHeads children).length)
    else ∃ result, h.features children counter w = .ok result := by
  obtain ⟨plain, own⟩ : ∃ plain, (h.plainFeatures info : Except Fault (List (Feature BufferId))) = .ok plain :=
    plainFeatures_of_field named found
  simp only [features, given, own, regionFeature, regionField, needField, named]
  rcases info.region with _ | ⟨condition, stopper⟩ | ⟨item, collection, stopper⟩
  · rw [if_neg (by simp)]
    exact ⟨_, rfl⟩
  all_goals
    by_cases single : (elementHeads children).length = 1
    · rw [if_neg (by simp [single])]
      simp only [single]
      exact ⟨_, rfl⟩
    · rw [if_pos ⟨rfl, single⟩]
      simp only [bind, Except.bind, single]
      rfl

/-- The features of an element cannot be had exactly if it is at fault. -/
theorem features_eq_error_iff (h : Head) (children : List Node) (counter : CounterId) (w : Workspace) (fault : Fault) :
    h.features children counter w = .error fault ↔ h.fault? children = some fault := by
  rcases given : h.info with _ | info
  · simp [features, fault?, given]
  rcases named : info.field with _ | field
  · rw [features_of_fieldless given named]
    simp only [fault?, given, Option.bind_some, named]
    rcases info.capabilities.head? with _ | capability <;> simp
  rcases found : h.elementId? with _ | elementId
  · rw [features_of_unidentified given named found]
    simp [fault?, given, named, found]
  · have outcome := features_of_field given named found children counter w
    simp only [fault?, given, Option.bind_some, named, found, Option.isNone_some, Bool.false_eq_true, ↓reduceIte]
    split at outcome
    · rename_i crowded
      rw [if_pos crowded, outcome]
      simp
    · rename_i fine
      obtain ⟨result, ok⟩ := outcome
      rw [if_neg fine, ok]
      simp

theorem fault?_of_features {children : List Node} {counter : CounterId} {w : Workspace}
    {result : List (Feature BufferId) × Workspace} (ok : h.features children counter w = .ok result) :
    h.fault? children = none := by
  cases found : h.fault? children with
  | none => rfl
  | some fault =>
    rw [(features_eq_error_iff h children counter w fault).mpr found] at ok
    cases ok

end Head

/-! ### The elements in order -/

/-- An element of a template, with the child numbers that lead to it. -/
structure Stop where
  path : List Nat
  head : Head
  children : List Node

def Stop.fault? (stop : Stop) : Option Fault :=
  stop.head.fault? stop.children

mutual
/-- The elements of the node at `path`, in the order of their start tags. -/
def Node.stops (path : List Nat) : Node → List Stop
  | .text _ => []
  | .element head children => { path, head, children } :: stopsAll path 0 children
/-- The elements of children from number `place` on. -/
def stopsAll (path : List Nat) (place : Nat) : List Node → List Stop
  | [] => []
  | node :: rest => node.stops (path ++ [place]) ++ stopsAll path (place + 1) rest
end

def Element.stops (e : Element) : List Stop :=
  e.toNode.stops []

mutual
theorem prefix_of_mem_stops {path : List Nat} {stop : Stop} (node : Node) (member : stop ∈ node.stops path) :
    path <+: stop.path := by
  cases node with
  | text value => cases member
  | element head children =>
    rcases List.mem_cons.mp member with rfl | below
    · exact List.prefix_refl path
    · obtain ⟨index, -, leads⟩ := prefix_of_mem_stopsAll children below
      exact (List.prefix_append path [index]).trans leads
theorem prefix_of_mem_stopsAll {path : List Nat} {place : Nat} {stop : Stop} (nodes : List Node)
    (member : stop ∈ stopsAll path place nodes) : ∃ index, place ≤ index ∧ path ++ [index] <+: stop.path := by
  cases nodes with
  | nil => cases member
  | cons node rest =>
    rcases List.mem_append.mp member with first | later
    · exact ⟨place, Nat.le_refl place, prefix_of_mem_stops node first⟩
    · obtain ⟨index, above, leads⟩ := prefix_of_mem_stopsAll rest later
      exact ⟨index, by omega, leads⟩
end

/-! ### Running the hooks -/

/-- A walk under way: the workspace, and for each path the scope that an element there is woven into. -/
structure Walk where
  workspace : Workspace
  scopes : List Nat → Scope

namespace Walk

/-- A walk that has come nowhere yet. -/
def start (scope : Scope) (w : Workspace) : Walk where
  workspace := w
  scopes _ := scope

/-- The features of the element at `path` write their code to its scope. All below it is woven into the
    scope of its children from then on. -/
def enter (walk : Walk) (path : List Nat) (features : List (Feature BufferId)) (w : Workspace) : Walk where
  workspace := writeFeatures w (walk.scopes path) features
  scopes other := if path <+: other then innerScope (walk.scopes path) features else walk.scopes other

/-- Runs the hooks of an element, unless it has a fault. -/
def visit (walk : Walk) (stop : Stop) : Except Fault Walk :=
  match stop.head.features stop.children (walk.scopes stop.path).counter walk.workspace with
  | .error fault => .error fault
  | .ok (features, w) => .ok (walk.enter stop.path features w)

/-- Runs the hooks of elements one after the other, up to the first that has a fault. -/
def run (walk : Walk) : List Stop → Walk × Option Fault
  | [] => (walk, none)
  | stop :: rest =>
    match walk.visit stop with
    | .error fault => (walk, some fault)
    | .ok next => next.run rest

variable {stop : Stop} {fault : Fault}

theorem visit_eq_error_iff {walk : Walk} : walk.visit stop = .error fault ↔ stop.fault? = some fault := by
  rw [Stop.fault?, ← Head.features_eq_error_iff _ _ (walk.scopes stop.path).counter walk.workspace, visit]
  rcases stop.head.features stop.children (walk.scopes stop.path).counter walk.workspace with other | ⟨features, w⟩
  · simp
  · simp

theorem run_append (walk : Walk) (before after : List Stop) :
    walk.run (before ++ after) = match walk.run before with
      | (next, none) => next.run after
      | (next, some fault) => (next, some fault) := by
  induction before generalizing walk with
  | nil => rfl
  | cons stop before ih =>
    rw [List.cons_append, run, run]
    cases walk.visit stop with
    | error fault => rfl
    | ok next => exact ih next

/-- What is not below the elements that were visited keeps its scope. -/
theorem scopes_run (walk : Walk) {other : List Nat} {stops : List Stop}
    (elsewhere : ∀ stop ∈ stops, ¬ stop.path <+: other) : (walk.run stops).1.scopes other = walk.scopes other := by
  induction stops generalizing walk with
  | nil => rfl
  | cons stop rest ih =>
    have here := elsewhere stop (by simp)
    rw [run]
    cases visited : walk.visit stop with
    | error fault => rfl
    | ok next =>
      have later := ih next fun stop member => elsewhere stop (by simp [member])
      rw [visit] at visited
      split at visited
      · cases visited
      · cases visited
        simpa [enter, here] using later

/-- A walk ends at the first element with a fault and has then run the hooks of those before it. -/
theorem run_fault (walk : Walk) {before : List Stop} (after : List Stop)
    (faultless : ∀ earlier ∈ before, earlier.fault? = none) (faulty : stop.fault? = some fault) :
    ∃ next, walk.run before = (next, none) ∧ walk.run (before ++ stop :: after) = (next, some fault) := by
  induction before generalizing walk with
  | nil =>
    refine ⟨walk, rfl, ?_⟩
    rw [List.nil_append, run, visit_eq_error_iff.mpr faulty]
  | cons first before ih =>
    cases visited : walk.visit first with
    | error other =>
      have none := faultless first (by simp)
      rw [visit_eq_error_iff.mp visited] at none
      cases none
    | ok next =>
      obtain ⟨last, runs, ends⟩ := ih next fun earlier member => faultless earlier (by simp [member])
      exact ⟨last, by rw [run, visited]; exact runs, by rw [List.cons_append, run, visited]; exact ends⟩

/-- A walk reports the first fault there is. -/
theorem fault_run (walk : Walk) (stops : List Stop) : (walk.run stops).2 = stops.findSome? Stop.fault? := by
  induction stops generalizing walk with
  | nil => rfl
  | cons stop rest ih =>
    rw [run, List.findSome?_cons]
    cases visited : walk.visit stop with
    | error fault => rw [visit_eq_error_iff.mp visited]
    | ok next =>
      have sound : stop.fault? = none := by
        rcases found : stop.fault? with _ | fault
        · rfl
        · rw [visit_eq_error_iff.mpr found] at visited
          cases visited
      rw [sound]
      exact ih next

end Walk

mutual
/-- Weaving a node is running the hooks of its elements in order. -/
theorem weave_eq_run (walk : Walk) (path : List Nat) (node : Node) :
    node.weave (walk.scopes path) walk.workspace
      = ((walk.run (node.stops path)).1.workspace, (walk.run (node.stops path)).2) := by
  cases node with
  | text value => rfl
  | element head children =>
    rw [Node.weave, Node.stops, Walk.run, Walk.visit]
    cases head.features children (walk.scopes path).counter walk.workspace with
    | error fault => rfl
    | ok result =>
      obtain ⟨features, w⟩ := result
      have inside : ∀ index, 0 ≤ index →
          (walk.enter path features w).scopes (path ++ [index]) = innerScope (walk.scopes path) features := by
        intro index _
        simp [Walk.enter]
      exact weaveAll_eq_run (walk.enter path features w) path 0 children inside
theorem weaveAll_eq_run {scope : Scope} (walk : Walk) (path : List Nat) (place : Nat) (nodes : List Node)
    (same : ∀ index, place ≤ index → walk.scopes (path ++ [index]) = scope) :
    weaveAll scope walk.workspace nodes
      = ((walk.run (stopsAll path place nodes)).1.workspace, (walk.run (stopsAll path place nodes)).2) := by
  cases nodes with
  | nil => rfl
  | cons node rest =>
    have first := weave_eq_run walk (path ++ [place]) node
    rw [same place (Nat.le_refl place)] at first
    have kept : ∀ index, place + 1 ≤ index →
        (walk.run (node.stops (path ++ [place]))).1.scopes (path ++ [index]) = scope := by
      intro index later
      rw [Walk.scopes_run walk fun stop member leads => ?_]
      · exact same index (by omega)
      · have onto := (prefix_of_mem_stops node member).trans leads
        simp at onto
        omega
    rw [weaveAll, first, stopsAll, Walk.run_append]
    rcases result : walk.run (node.stops (path ++ [place])) with ⟨next, _ | fault⟩
    · rw [result] at kept
      exact weaveAll_eq_run next path (place + 1) rest kept
    · rfl
end

/-! ### Elements by their paths -/

theorem mem_stopsAll {path : List Nat} {place index : Nat} {nodes : List Node} {child : Node} {stop : Stop}
    (found : nodes[index]? = some child) (member : stop ∈ child.stops (path ++ [place + index])) :
    stop ∈ stopsAll path place nodes := by
  induction nodes generalizing place index with
  | nil => cases found
  | cons node rest ih =>
    cases index with
    | zero =>
      obtain rfl := Option.some.inj found
      exact List.mem_append_left _ member
    | succ index =>
      refine List.mem_append_right _ (ih found ?_)
      rwa [Nat.add_assoc, Nat.add_comm 1]

/-- A walk comes by every element that a path leads to. -/
theorem exists_mem_stops (path : List Nat) {root : Option String} {next : Nat} {below : List Nat} {node : Node}
    {visit : Visit} (visited : node.visit root next below = some visit) :
    ∃ children, { path := path ++ below, head := visit.head, children } ∈ node.stops path := by
  induction below generalizing node path root next visit with
  | nil =>
    obtain ⟨head, children, rfl, rfl⟩ := Node.visit_nil visited
    exact ⟨children, by simp [Node.stops]⟩
  | cons index below ih =>
    obtain ⟨head, children, child, visit, rfl, found, reached, rfl⟩ := Node.visit_cons visited
    obtain ⟨inner, member⟩ := ih (path ++ [index]) reached
    rw [List.append_assoc, List.singleton_append] at member
    exact ⟨inner, List.mem_cons_of_mem _ (mem_stopsAll found (by rwa [Nat.zero_add]))⟩

/-- Where a walk comes to its end, no element is at fault. -/
theorem faultless_of_weave {scope : Scope} {w w' : Workspace} {node : Node} (done : node.weave scope w = (w', none))
    (path : List Nat) {stop : Stop} (member : stop ∈ node.stops path) : stop.fault? = none := by
  have runs := weave_eq_run (Walk.start scope w) path node
  have same : node.weave ((Walk.start scope w).scopes path) (Walk.start scope w).workspace = (w', none) := done
  rw [same] at runs
  have none := (congrArg Prod.snd runs).symm
  rw [Walk.fault_run] at none
  exact List.findSome?_eq_none_iff.mp none stop member

/-- Weaving fails exactly if some element has a fault by itself. It then reports the fault of the first such
    element in the order of the start tags, and leaves behind what the hooks of the elements before that one
    write, each in its own scope: the element at fault adds no line and takes no number. -/
theorem weave_ends_at_first_fault (e : Element) (scope : Scope) (w : Workspace) :
    ((e.weave scope w).2.isSome ↔ ∃ stop ∈ e.stops, stop.fault?.isSome) ∧
      ∀ before stop after fault, e.stops = before ++ stop :: after →
        (∀ earlier ∈ before, earlier.fault? = none) → stop.fault? = some fault →
          ∃ walk, (Walk.start scope w).run before = (walk, none) ∧
            e.weave scope w = (walk.workspace, some fault) := by
  have runs : e.weave scope w = _ := weave_eq_run (Walk.start scope w) [] e.toNode
  constructor
  · rw [runs, Walk.fault_run, List.findSome?_isSome_iff]
    rfl
  · intro before stop after fault split faultless faulty
    obtain ⟨walk, begins, ends⟩ := Walk.run_fault (Walk.start scope w) after faultless faulty
    rw [← split, Element.stops] at ends
    exact ⟨walk, begins, by rw [runs, ends]⟩

/-- A list of items that hold a box each, with a button in it that cannot be found, and a paragraph that
    cannot have its listener. -/
def faultyItems : Element where
  head := { tag := "div" }
  children :=
    [.element
      { tag := "ul", info := some { field := some "list", elementId := some "list",
                                    region := some (.repeated "item" "items" "stopList") } }
      [.element
        { tag := "li", info := some { field := some "box", elementId := some "box",
                                      region := some (.conditional "open" "stopBox") } }
        [.element { tag := "button", info := some { field := some "go" } } []]],
     .element
      { tag := "p", info := some { events := .ofList [("click", [{ action := "run()", field := "onGo" }])] } } []]

theorem weave_ends_at_first_fault_faultyItems :
    let start := ({} : Workspace).newScope none
    ∃ before stop after walk, faultyItems.stops = before ++ stop :: after ∧
      before.map Stop.path = [[], [0], [0, 0]] ∧ stop.path = [0, 0, 0] ∧ after.map Stop.path = [[1]] ∧
      (Walk.start start.1 start.2).run before = (walk, none) ∧
      faultyItems.weave start.1 start.2 = (walk.workspace, some (.missingElementId "go" "button")) ∧
      walk.workspace.peek start.1.counter = 1 := by
  intro start
  have split : faultyItems.stops = faultyItems.stops.take 3 ++ faultyItems.stops[3] :: faultyItems.stops.drop 4 := rfl
  have faultless : ∀ earlier ∈ faultyItems.stops.take 3, earlier.fault? = none := by decide +kernel
  obtain ⟨walk, runs, ends⟩ := (weave_ends_at_first_fault faultyItems start.1 start.2).2 _ _ _
    (.missingElementId "go" "button") split faultless (by decide +kernel)
  refine ⟨_, _, _, walk, split, rfl, rfl, rfl, runs, ends, ?_⟩
  have counter : (faultyItems.weave start.1 start.2).1.peek start.1.counter = 1 := by decide +kernel
  rwa [ends] at counter

end TemplateWeaver
