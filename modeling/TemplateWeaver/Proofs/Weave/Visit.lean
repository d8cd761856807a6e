import TemplateWeaver.Proofs.Weave.ByValue

/-!
Elements as a walk comes to them. A path of child numbers leads to an element, and with it to the
variable that it is looked up from, the number that the counter has reached and the elements around it
(`Node.visit`). The origins that lines carry are true: a line with an origin is what the element at that
path writes to that section at that place (`mem_emit`).
-/
namespace TemplateWeaver

open Code (Segment)

variable {β : Type}

/-! ### Names taken from the counter -/

/-- How many names an element takes from the counter: one if it is a repeated region. -/
def Head.taken (h : Head) : Nat :=
  match h.region? with
  | some (_, .repeated ..) => 1
  | _ => 0

theorem Head.innerNext_eq (h : Head) (next : Nat) : h.innerNext next = next + h.taken := by
  unfold innerNext taken
  rcases h.region? with _ | ⟨field, ⟨condition, stopper⟩ | ⟨item, collection, stopper⟩⟩ <;> rfl

mutual
/-- How many names a node and all that is in it take. -/
def Node.taken : Node → Nat
  | .text _ => 0
  | .element head children => head.taken + takenAll children
def takenAll : List Node → Nat
  | [] => 0
  | node :: rest => node.taken + takenAll rest
end

mutual
theorem next_emit (path : List Nat) (root : Option String) (next : Nat) (node : Node) :
    (node.emit path root next).next = next + node.taken := by
  cases node with
  | text value => rfl
  | element head children =>
    rw [Node.emit, next_emitAll, Head.innerNext_eq, Node.taken, Nat.add_assoc]
theorem next_emitAll (path : List Nat) (place : Nat) (root : Option String) (next : Nat) (nodes : List Node) :
    (emitAll path place root next nodes).next = next + takenAll nodes := by
  cases nodes with
  | nil => rfl
  | cons node rest => rw [emitAll, next_emitAll, next_emit, takenAll, Nat.add_assoc]
end

/-! ### Visits -/

/-- An element as a walk comes to it: where elements are found from, the number that the counter gives
    next, and the elements around it, the nearest first. -/
structure Visit where
  head : Head
  root : Option String
  next : Nat
  around : List Head := []

/-- What the element writes to a section, whatever is embedded in it. -/
def Visit.code (v : Visit) (hook : Section) : List (Segment Unit) :=
  v.head.code v.root v.next (fun _ => ()) hook

/-- The same visit with one more element around it. -/
def Visit.under (v : Visit) (head : Head) : Visit :=
  { v with around := v.around ++ [head] }

/-- The element at a path of child numbers. -/
def Node.visit (root : Option String) (next : Nat) : Node → List Nat → Option Visit
  | .text _, _ => none
  | .element head _, [] => some { head, root, next }
  | .element head children, place :: path =>
    children[place]?.bind fun child =>
      (child.visit (head.innerRoot root next) (head.innerNext next + takenAll (children.take place))
        path).map fun v => v.under head

section
variable {root : Option String} {next index : Nat} {below : List Nat} {visit : Visit} {node : Node}

@[simp] theorem Visit.under_head (v : Visit) (head : Head) : (v.under head).head = v.head := rfl
@[simp] theorem Visit.under_root (v : Visit) (head : Head) : (v.under head).root = v.root := rfl
@[simp] theorem Visit.under_next (v : Visit) (head : Head) : (v.under head).next = v.next := rfl
@[simp] theorem Visit.under_around (v : Visit) (head : Head) : (v.under head).around = v.around ++ [head] := rfl

theorem Node.visit_nil (visited : node.visit root next [] = some visit) :
    ∃ head children, node = .element head children ∧ visit = { head, root, next } := by
  cases node with
  | text value => cases visited
  | element head children =>
    cases visited
    exact ⟨head, children, rfl, rfl⟩

theorem Node.visit_child {head : Head} {children : List Node} {child : Node} (found : children[index]? = some child)
    (below : List Nat) :
    (Node.element head children).visit root next (index :: below)
      = (child.visit (head.innerRoot root next) (head.innerNext next + takenAll (children.take index)) below).map
          fun v => v.under head := by
  rw [visit, found, Option.bind_some]

/-- A path that goes on leads through one of the children. -/
theorem Node.visit_cons (visited : node.visit root next (index :: below) = some visit) :
    ∃ head children child v, node = .element head children ∧ children[index]? = some child ∧
      child.visit (head.innerRoot root next) (head.innerNext next + takenAll (children.take index)) below = some v ∧
      visit = v.under head := by
  cases node with
  | text value => cases visited
  | element head children =>
    obtain ⟨child, found, inside⟩ := Option.bind_eq_some_iff.mp visited
    obtain ⟨v, reached, same⟩ := Option.map_eq_some_iff.mp inside
    exact ⟨head, children, child, v, rfl, found, reached, same.symm⟩

/-- A path that goes on from an element leads on as if from that element alone. -/
theorem Node.visit_append {outer : List Nat} {v : Visit} (reached : node.visit root next outer = some v) :
    ∃ children, ∀ below, node.visit root next (outer ++ below)
      = ((Node.element v.head children).visit v.root v.next below).map
          fun u => { u with around := u.around ++ v.around } := by
  induction outer generalizing node root next v with
  | nil =>
    obtain ⟨head, children, rfl, rfl⟩ := Node.visit_nil reached
    refine ⟨children, fun below => ?_⟩
    simp only [List.nil_append, List.append_nil, Option.map_id_fun', id_eq]
  | cons index outer ih =>
    obtain ⟨head, siblings, child, v, rfl, found, within, rfl⟩ := Node.visit_cons reached
    obtain ⟨children, leads⟩ := ih within
    refine ⟨children, fun below => ?_⟩
    rw [List.cons_append, Node.visit_child found, leads, Option.map_map]
    simp only [Function.comp_def, Visit.under, List.append_assoc]

end

/-! ### Lines with their origins -/

namespace Traced

mutual
/-- The lines with what is nested in its place. -/
def lines : Traced → List (Origin × String)
  | .line origin text => [(origin, text)]
  | .nested body => linesAll body
def linesAll : List Traced → List (Origin × String)
  | [] => []
  | traced :: rest => lines traced ++ linesAll rest
end

@[simp] theorem linesAll_append (front back : List Traced) :
    linesAll (front ++ back) = linesAll front ++ linesAll back := by
  induction front with
  | nil => rfl
  | cons traced rest ih => simp only [List.cons_append, linesAll, ih, List.append_assoc]

end Traced

namespace Code.Segment

/-- The lines among segments, each with its origin. -/
def ownLines (path : List Nat) (hook : Section) (place : Nat) : List (Segment β) → List (Origin × String)
  | [] => []
  | .line text :: rest => ({ path, hook, place }, text) :: ownLines path hook (place + 1) rest
  | .embed _ :: rest => ownLines path hook (place + 1) rest

theorem mem_ownLines {path : List Nat} {hook : Section} {place : Nat} {segments : List (Segment β)}
    {origin : Origin} {text : String} :
    (origin, text) ∈ ownLines path hook place segments ↔
      ∃ index, origin = { path, hook, place := place + index } ∧ segments[index]? = some (.line text) := by
  induction segments generalizing place with
  | nil => simp [ownLines]
  | cons segment rest ih =>
    constructor
    · intro member
      cases segment with
      | line first =>
        rcases List.mem_cons.mp member with same | later
        · cases same
          exact ⟨0, rfl, rfl⟩
        · obtain ⟨index, rfl, found⟩ := ih.mp later
          exact ⟨index + 1, by simp only [Origin.mk.injEq, true_and]; omega, found⟩
      | embed content =>
        obtain ⟨index, rfl, found⟩ := ih.mp member
        exact ⟨index + 1, by simp only [Origin.mk.injEq, true_and]; omega, found⟩
    · rintro ⟨_ | index, rfl, found⟩
      · cases found
        exact List.mem_cons_self
      · have later : (⟨path, hook, place + (index + 1)⟩, text) ∈ ownLines path hook (place + 1) rest :=
          ih.mpr ⟨index, by simp only [Origin.mk.injEq, true_and]; omega, found⟩
        cases segment with
        | line first => exact List.mem_cons_of_mem _ later
        | embed content => exact later

end Code.Segment

open Code.Segment (embedded ownLines mem_ownLines)

/-- A line among traced segments is one of them or stands in what one of them embeds. -/
theorem Traced.mem_linesAll_ofSegments {path : List Nat} {hook : Section} {place : Nat}
    {segments : List (Segment (List Traced))} {line : Origin × String}
    (member : line ∈ linesAll (ofSegments path hook place segments)) :
    line ∈ ownLines path hook place segments ∨ ∃ body ∈ embedded segments, line ∈ linesAll body := by
  induction segments generalizing place with
  | nil => cases member
  | cons segment rest ih =>
    cases segment with
    | line text =>
      rcases List.mem_cons.mp member with same | later
      · exact .inl (same ▸ List.mem_cons_self)
      · rcases ih later with own | inside
        · exact .inl (List.mem_cons_of_mem _ own)
        · exact .inr inside
    | embed body =>
      rcases List.mem_append.mp member with here | later
      · exact .inr ⟨body, List.mem_cons_self, here⟩
      · rcases ih later with own | ⟨inner, among, inside⟩
        · exact .inl own
        · exact .inr ⟨inner, List.mem_cons_of_mem _ among, inside⟩

/-- The lines of an element are the same whatever it embeds. -/
theorem Head.getElem?_code_line (h : Head) (root : Option String) (next : Nat) (inner : Section → β)
    (hook : Section) (place : Nat) (text : String) :
    (h.code root next inner hook)[place]? = some (.line text) ↔
      (h.code root next (fun _ => ()) hook)[place]? = some (.line text) := by
  rw [← Head.code_map (fun _ => ()) h root next inner hook, List.getElem?_map]
  rcases (h.code root next inner hook)[place]? with _ | ⟨_ | _⟩ <;> simp [Segment.map]

mutual
/-- A line of a node is written by the element that its origin says. -/
theorem mem_emit {path : List Nat} {root : Option String} {next : Nat} {part : Section} {line : Origin × String}
    (node : Node) (member : line ∈ Traced.linesAll ((node.emit path root next).code part)) :
    ∃ below visit, line.1.path = path ++ below ∧ node.visit root next below = some visit ∧
      (visit.code line.1.hook)[line.1.place]? = some (.line line.2) := by
  cases node with
  | text value => cases member
  | element head children =>
    -- What stands in some section of the children comes from one of them.
    have deeper : ∀ caught, line ∈ Traced.linesAll
        ((emitAll path 0 (head.innerRoot root next) (head.innerNext next) children).code caught) →
        ∃ below visit, line.1.path = path ++ below ∧
          (Node.element head children).visit root next below = some visit ∧
          (visit.code line.1.hook)[line.1.place]? = some (.line line.2) := by
      intro caught inside
      obtain ⟨index, child, below, visit, found, leads, visited, written⟩ := mem_emitAll children inside
      refine ⟨index :: below, visit.under head, by simpa using leads, ?_, written⟩
      simp only [Node.visit, found, Option.bind_some, visited, Option.map_some]
    simp only [Node.emit, Traced.linesAll_append, List.mem_append] at member
    rcases member with own | passed
    · rcases Traced.mem_linesAll_ofSegments own with here | ⟨body, among, inside⟩
      · obtain ⟨index, same, written⟩ := mem_ownLines.mp here
        refine ⟨[], { head, root, next }, by simp [same], rfl, ?_⟩
        simp only [same, Nat.zero_add]
        exact (head.getElem?_code_line root next _ part index line.2).mp written
      · rw [Head.embedded_code, List.mem_map] at among
        obtain ⟨caught, -, rfl⟩ := among
        exact deeper caught inside
    · split at passed
      · exact deeper part passed
      · cases passed
theorem mem_emitAll {path : List Nat} {place : Nat} {root : Option String} {next : Nat} {part : Section}
    {line : Origin × String} (nodes : List Node)
    (member : line ∈ Traced.linesAll ((emitAll path place root next nodes).code part)) :
    ∃ index child below visit, nodes[index]? = some child ∧ line.1.path = path ++ (place + index) :: below ∧
      child.visit root (next + takenAll (nodes.take index)) below = some visit ∧
      (visit.code line.1.hook)[line.1.place]? = some (.line line.2) := by
  cases nodes with
  | nil => cases member
  | cons node rest =>
    simp only [emitAll, Traced.linesAll_append, List.mem_append] at member
    rcases member with first | later
    · obtain ⟨below, visit, leads, visited, written⟩ := mem_emit node first
      exact ⟨0, node, below, visit, rfl, by simpa using leads, visited, written⟩
    · obtain ⟨index, child, below, visit, found, leads, visited, written⟩ := mem_emitAll rest later
      refine ⟨index + 1, child, below, visit, found, ?_, ?_, written⟩
      · rw [leads, Nat.add_assoc, Nat.add_comm 1]
      · rwa [next_emit, Nat.add_assoc] at visited
end

section
variable {path : List Nat} {root : Option String} {next : Nat} {part : Section} {place index : Nat}
  {nodes : List Node} {child : Node}

/-- Of several children the lines of one come from it alone. -/
theorem split_emitAll (found : nodes[index]? = some child) :
    ∃ front back, Traced.linesAll ((emitAll path place root next nodes).code part)
        = front
          ++ Traced.linesAll ((child.emit (path ++ [place + index]) root (next + takenAll (nodes.take index))).code part)
          ++ back ∧
      ∀ line ∈ front ++ back, ¬ path ++ [place + index] <+: line.1.path := by
  induction nodes generalizing place index next with
  | nil => cases found
  | cons node rest ih =>
    simp only [emitAll, Traced.linesAll_append, next_emit]
    cases index with
    | zero =>
      simp only [List.getElem?_cons_zero, Option.some.injEq] at found
      subst found
      refine ⟨[], _, rfl, fun line member onto => ?_⟩
      obtain ⟨index, child, below, visit, -, elsewhere, -⟩ := mem_emitAll rest member
      rw [elsewhere, List.prefix_append_right_inj, List.cons_prefix_cons] at onto
      omega
    | succ index =>
      have shift : place + 1 + index = place + (index + 1) := by omega
      obtain ⟨front, back, split, others⟩ := @ih (next + node.taken) (place + 1) index found
      rw [shift] at split others
      refine ⟨Traced.linesAll ((node.emit (path ++ [place]) root next).code part) ++ front, back, ?_, ?_⟩
      · rw [split, List.take_succ_cons, takenAll, Nat.add_assoc]
        simp only [List.append_assoc]
      · intro line member onto
        rw [List.append_assoc] at member
        rcases List.mem_append.mp member with first | later
        · obtain ⟨below, visit, elsewhere, -⟩ := mem_emit node first
          rw [elsewhere, List.append_assoc, List.prefix_append_right_inj, List.singleton_append,
            List.cons_prefix_cons] at onto
          omega
        · exact others line later onto

theorem filter_emitAll (found : nodes[index]? = some child) {p : Origin × String → Bool}
    (leads : ∀ line, p line = true → path ++ [place + index] <+: line.1.path) :
    (Traced.linesAll ((emitAll path place root next nodes).code part)).filter p
      = (Traced.linesAll ((child.emit (path ++ [place + index]) root (next + takenAll (nodes.take index))).code
          part)).filter p := by
  obtain ⟨front, back, split, others⟩ := split_emitAll found
  have none : ∀ line ∈ front ++ back, ¬ p line = true := fun line member holds => others line member (leads line holds)
  rw [split, List.filter_append, List.filter_append,
    List.filter_eq_nil_iff.mpr fun line member => none line (List.mem_append_left _ member),
    List.filter_eq_nil_iff.mpr fun line member => none line (List.mem_append_right _ member),
    List.nil_append, List.append_nil]

end

end TemplateWeaver
