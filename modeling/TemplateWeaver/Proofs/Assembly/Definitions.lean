import Mathlib.Logic.Relation
import TemplateWeaver.Assembly.Page

/-!
Component definitions in a page. What is left of a body without its definitions are the nodes with no
definition among themselves and the elements around them, in their order (`itemsAll_dropDefinitions`).
So bodies that differ in definitions only are the same without them (`dropDefinitions_eq`), and their
pages come out the same (`assemble_ignores_definitions`).
-/
namespace TemplateWeaver

/-! ### Nodes in order -/

/-- What a node is by itself: an element without its children, or a text. -/
inductive Mark where
  | element (head : Head)
  | text (value : String)

def Mark.isDefinition : Mark → Bool
  | .element head => Tag.isDefinition head.tag
  | .text _ => false

/-- A node by itself and the elements around it, the outermost first. -/
structure Item where
  mark : Mark
  around : List Head

/-- Neither the node nor an element around it is a definition. -/
def Item.Outside (item : Item) : Prop :=
  item.mark.isDefinition = false ∧ ∀ head ∈ item.around, Tag.isDefinition head.tag = false

instance (item : Item) : Decidable item.Outside :=
  inferInstanceAs (Decidable (_ ∧ _))

mutual
/-- A node and all that is in it, in the order of the start tags. -/
def Node.items (around : List Head) : Node → List Item
  | .element head children => { mark := .element head, around } :: itemsAll (around ++ [head]) children
  | .text value => [{ mark := .text value, around }]
def itemsAll (around : List Head) : List Node → List Item
  | [] => []
  | node :: rest => node.items around ++ itemsAll around rest
end

mutual
theorem around_of_mem_items {around : List Head} {item : Item} (node : Node) (member : item ∈ node.items around) :
    around <+: item.around := by
  cases node with
  | element head children =>
    rcases List.mem_cons.mp member with rfl | below
    · exact List.prefix_refl around
    · exact (List.prefix_append around [head]).trans (around_of_mem_itemsAll children below)
  | text value =>
    obtain rfl := List.mem_singleton.mp member
    exact List.prefix_refl around
theorem around_of_mem_itemsAll {around : List Head} {item : Item} (nodes : List Node)
    (member : item ∈ itemsAll around nodes) : around <+: item.around := by
  cases nodes with
  | nil => cases member
  | cons node rest =>
    rcases List.mem_append.mp member with first | later
    · exact around_of_mem_items node first
    · exact around_of_mem_itemsAll rest later
end

/-- All that is in a definition goes with it. -/
theorem filter_items_definition {node : Node} (defines : node.isDefinition = true) (around : List Head) :
    (node.items around).filter (fun item => item.Outside) = [] := by
  apply List.filter_eq_nil_iff.mpr
  intro item member
  rw [decide_eq_true_eq]
  rintro ⟨plain, clear⟩
  cases node with
  | text value => cases defines
  | element head children =>
    rcases List.mem_cons.mp member with rfl | below
    · have same : Tag.isDefinition head.tag = false := plain
      rw [Node.isDefinition, same] at defines
      cases defines
    · have inside := (around_of_mem_itemsAll children below).subset (List.mem_append_right around List.mem_cons_self)
      rw [Node.isDefinition, clear head inside] at defines
      cases defines

/-! ### Without definitions -/

mutual
/-- A node that is no definition keeps the nodes outside of definitions. -/
theorem items_withoutDefinitions {around : List Head} (clear : ∀ head ∈ around, Tag.isDefinition head.tag = false)
    (node : Node) (plain : node.isDefinition = false) :
    node.withoutDefinitions.items around = (node.items around).filter (fun item => item.Outside) := by
  cases node with
  | text value =>
    have outside : ({ mark := .text value, around } : Item).Outside := ⟨rfl, clear⟩
    simp [Node.withoutDefinitions, Node.items, outside]
  | element head children =>
    have outside : ({ mark := .element head, around } : Item).Outside := ⟨plain, clear⟩
    have deeper : ∀ other ∈ around ++ [head], Tag.isDefinition other.tag = false := by
      intro other member
      rcases List.mem_append.mp member with outer | here
      · exact clear other outer
      · obtain rfl := List.mem_singleton.mp here
        exact plain
    rw [Node.withoutDefinitions, Node.items, Node.items, List.filter_cons_of_pos (by simpa using outside),
      itemsAll_dropDefinitions deeper children]
/-- What is left in the order of the start tags are the nodes outside of definitions. -/
theorem itemsAll_dropDefinitions {around : List Head} (clear : ∀ head ∈ around, Tag.isDefinition head.tag = false)
    (nodes : List Node) :
    itemsAll around (dropDefinitions nodes) = (itemsAll around nodes).filter (fun item => item.Outside) := by
  cases nodes with
  | nil => rfl
  | cons node rest =>
    rw [dropDefinitions, itemsAll, List.filter_append]
    by_cases defines : node.isDefinition = true
    · rw [if_pos defines, filter_items_definition defines, List.nil_append, itemsAll_dropDefinitions clear rest]
    · have plain := Bool.eq_false_iff.mpr defines
      rw [if_neg defines, itemsAll, items_withoutDefinitions clear node plain, itemsAll_dropDefinitions clear rest]
end

theorem isDefinition_withoutDefinitions (node : Node) : node.withoutDefinitions.isDefinition = node.isDefinition := by
  cases node <;> rfl

mutual
theorem withoutDefinitions_idem (node : Node) : node.withoutDefinitions.withoutDefinitions = node.withoutDefinitions := by
  cases node with
  | text value => rfl
  | element head children => rw [Node.withoutDefinitions, Node.withoutDefinitions, dropDefinitions_idem children]
/-- Once the definitions are gone there is nothing more to drop. -/
theorem dropDefinitions_idem (nodes : List Node) : dropDefinitions (dropDefinitions nodes) = dropDefinitions nodes := by
  cases nodes with
  | nil => rfl
  | cons node rest =>
    rw [dropDefinitions]
    by_cases defines : node.isDefinition = true
    · rw [if_pos defines, dropDefinitions_idem rest]
    · rw [if_neg defines, dropDefinitions, isDefinition_withoutDefinitions, if_neg defines,
        withoutDefinitions_idem node, dropDefinitions_idem rest]
end

/-! ### Bodies that differ in definitions -/

/-- One more definition among nodes, at any depth. -/
inductive Edit : List Node → List Node → Prop where
  | insert (front back : List Node) {definition : Node} (defines : definition.isDefinition = true) :
      Edit (front ++ back) (front ++ definition :: back)
  | inside (front back : List Node) (head : Head) {children edited : List Node} (edit : Edit children edited) :
      Edit (front ++ .element head children :: back) (front ++ .element head edited :: back)

/-- Nodes that come from one another by putting in and taking out definitions, one after the other. -/
def DifferInDefinitions : List Node → List Node → Prop :=
  Relation.EqvGen Edit

theorem dropDefinitions_append (front back : List Node) :
    dropDefinitions (front ++ back) = dropDefinitions front ++ dropDefinitions back := by
  induction front with
  | nil => rfl
  | cons node rest ih =>
    rw [List.cons_append, dropDefinitions, dropDefinitions, ih]
    by_cases defines : node.isDefinition = true
    · rw [if_pos defines, if_pos defines]
    · rw [if_neg defines, if_neg defines, List.cons_append]

theorem dropDefinitions_edit {nodes edited : List Node} (edit : Edit nodes edited) :
    dropDefinitions nodes = dropDefinitions edited := by
  induction edit with
  | insert front back defines => rw [dropDefinitions_append, dropDefinitions_append, dropDefinitions, if_pos defines]
  | @inside front back head children edited edit ih =>
    have same : (Node.element head children).withoutDefinitions = (Node.element head edited).withoutDefinitions := by
      rw [Node.withoutDefinitions, Node.withoutDefinitions, ih]
    rw [dropDefinitions_append, dropDefinitions_append, dropDefinitions, dropDefinitions, same]
    rfl

/-- Definitions make no difference once they are gone. -/
theorem dropDefinitions_eq {nodes others : List Node} (differ : DifferInDefinitions nodes others) :
    dropDefinitions nodes = dropDefinitions others := by
  induction differ with
  | rel nodes edited edit => exact dropDefinitions_edit edit
  | refl nodes => rfl
  | symm nodes others _ ih => exact ih.symm
  | trans nodes middle others _ _ first second => exact first.trans second

/-- The same page around other nodes. -/
def Page.withNodes (u : Page) (nodes : List Node) : Page :=
  { u with body := { u.body with children := nodes } }

/-- Component definitions never matter to a page: bodies that differ in definitions below the root give the
    same fault or the same code. The reason is what is left of a body without definitions: the root, and in
    their order the nodes below it with no definition among themselves and the elements around them. So there
    is no definition left, and nothing to drop a second time. -/
theorem assemble_ignores_definitions (u : Page) {nodes : List Node}
    (differ : DifferInDefinitions u.body.children nodes) :
    (∀ config, (u.withNodes nodes).assemble config = u.assemble config) ∧
      u.body.withoutDefinitions.head = u.body.head ∧
      itemsAll [] u.body.withoutDefinitions.children
        = (itemsAll [] u.body.children).filter (fun item => item.Outside) ∧
      (∀ item ∈ itemsAll [] u.body.withoutDefinitions.children, item.mark.isDefinition = false) ∧
      u.body.withoutDefinitions.withoutDefinitions = u.body.withoutDefinitions := by
  have left : itemsAll [] u.body.withoutDefinitions.children
      = (itemsAll [] u.body.children).filter (fun item => item.Outside) :=
    itemsAll_dropDefinitions (by simp) u.body.children
  refine ⟨?_, rfl, left, ?_, ?_⟩
  · intro config
    have same : (u.withNodes nodes).body.withoutDefinitions = u.body.withoutDefinitions := by
      simp only [Page.withNodes, Element.withoutDefinitions, dropDefinitions_eq differ]
    rw [Page.assemble, Page.assemble, same]
    rfl
  · intro item member
    rw [left] at member
    exact (of_decide_eq_true (List.mem_filter.mp member).2).1
  · simp only [Element.withoutDefinitions, dropDefinitions_idem]

/-- A box that comes and goes. -/
def shownBox (inside : List Node) : Node :=
  .element { tag := "div", info := some { field := some "_box", elementId := some "box",
                                          region := some (.conditional "open" "_stop") } } inside

/-- A definition that could not be woven itself, around another one. -/
def strayDefinition : Node :=
  .element { tag := "ELEMENT", info := some { field := some "_lost" } } [.element { tag := "element" } [.text "x"]]

/-- A page with a line in a box. -/
def notice : Page where
  fileName := "notice.html"
  body := { head := { tag := "body" }, children := [shownBox [.element { tag := "p" } [.text "Open"]]] }

/-- A second child in the box would be a fault, if it were no definition. -/
theorem assemble_ignores_definitions_notice :
    let nodes := [strayDefinition, shownBox [.element { tag := "p" } [.text "Open"], strayDefinition]]
    DifferInDefinitions notice.body.children nodes ∧ (notice.withNodes nodes).assemble {} = notice.assemble {} := by
  intro nodes
  have inner : Edit notice.body.children [shownBox [.element { tag := "p" } [.text "Open"], strayDefinition]] :=
    .inside [] [] _ (.insert [.element { tag := "p" } [.text "Open"]] [] (by decide +kernel))
  have outer : Edit [shownBox [.element { tag := "p" } [.text "Open"], strayDefinition]] nodes :=
    .insert [] _ (by decide +kernel)
  have differ : DifferInDefinitions notice.body.children nodes := .trans _ _ _ (.rel _ _ inner) (.rel _ _ outer)
  exact ⟨differ, (assemble_ignores_definitions notice differ).1 {}⟩

end TemplateWeaver
