import TemplateWeaver.Markup.Printer
import TemplateWeaver.Proofs.Code.Lines
import TemplateWeaver.Proofs.OrderedMap
import TemplateWeaver.Proofs.Weave.Visit

/-!
Start tags in markup. Markup is put together from pieces, and the start tags among them know the element that
they are written for (`join_piecesAll`). A start tag carries the id that its element is found by
(`contains_startTag`). An element has one unless it is below an element with a void tag, whose content is left out
(`start_mem_pieces`).
-/
namespace TemplateWeaver

/-! ### The id of an element -/

theorem contains_join {texts : List String} {text : String} (member : text ∈ texts) :
    Contains (String.join texts) text := by
  obtain ⟨front, back, rfl⟩ := List.append_of_mem member
  exact ⟨String.join front, String.join back, by simp [String.append_assoc]⟩

namespace Head

variable {h : Head} {elementId : String}

/-- The id that an element is found by is among the attributes that are written. -/
theorem mem_writtenAttrs (found : h.elementId? = some elementId) : ("id", elementId) ∈ h.writtenAttrs := by
  rw [elementId?] at found
  rw [writtenAttrs]
  rcases given : h.infoId? with _ | id
  · rw [given, Option.none_or] at found
    exact OrderedMap.mem_of_lookup found
  · rw [given, Option.some_or] at found
    obtain rfl := Option.some.inj found
    exact OrderedMap.mem_insertEntry "id" id h.attrs.entries

/-- The tag that an element begins with. -/
def startTag (h : Head) : String :=
  "<" ++ h.tag ++ h.attrsMarkup ++ ">"

/-- The start tag carries the id that the element is found by. -/
theorem contains_startTag (found : h.elementId? = some elementId) :
    ∃ before after, h.startTag = "<" ++ h.tag ++ before ++ (" " ++ attributeMarkup "id" elementId) ++ after ++ ">" := by
  have member : " " ++ attributeMarkup "id" elementId ∈
      h.writtenAttrs.map fun attr => " " ++ attributeMarkup attr.1 attr.2 :=
    List.mem_map.mpr ⟨("id", elementId), mem_writtenAttrs found, rfl⟩
  obtain ⟨before, after, split⟩ := contains_join member
  refine ⟨before, after, ?_⟩
  rw [startTag, attrsMarkup, split]
  simp only [String.append_assoc]

end Head

/-! ### Pieces of markup -/

/-- A piece of markup: the start tag of the element at a path, or something else. -/
inductive Piece where
  | start (path : List Nat) (text : String)
  | other (text : String)

def Piece.text : Piece → String
  | .start _ text => text
  | .other text => text

mutual
/-- The markup of the node at `path`, piece by piece. -/
def Node.pieces (keepBlank : Bool) (path : List Nat) : Node → List Piece
  | .element head children =>
    if Tag.isVoid head.tag then [.start path head.startTag]
    else .start path head.startTag :: piecesAll keepBlank path 0 children ++ [.other ("</" ++ head.tag ++ ">")]
  | .text value => [.other (textMarkup keepBlank value)]
/-- The markup of children from number `place` on. -/
def piecesAll (keepBlank : Bool) (path : List Nat) (place : Nat) : List Node → List Piece
  | [] => []
  | node :: rest => node.pieces keepBlank (path ++ [place]) ++ piecesAll keepBlank path (place + 1) rest
end

section
variable {keepBlank : Bool} {path : List Nat} {place : Nat}

mutual
theorem join_pieces (keepBlank : Bool) (path : List Nat) (node : Node) :
    String.join ((node.pieces keepBlank path).map Piece.text) = node.markup keepBlank := by
  cases node with
  | text value => simp [Node.pieces, Node.markup, Piece.text]
  | element head children =>
    have inner := join_piecesAll keepBlank path 0 children
    rw [Node.pieces, Node.markup]
    split
    · simp [Piece.text, Head.startTag]
    · simp [Piece.text, Head.startTag, inner, String.append_assoc]
/-- The pieces are the markup, in its order. -/
theorem join_piecesAll (keepBlank : Bool) (path : List Nat) (place : Nat) (nodes : List Node) :
    String.join ((piecesAll keepBlank path place nodes).map Piece.text) = nodesMarkup keepBlank nodes := by
  cases nodes with
  | nil => rfl
  | cons node rest =>
    rw [piecesAll, nodesMarkup, List.map_append, String.join_append, join_pieces keepBlank _ node,
      join_piecesAll keepBlank path (place + 1) rest]
end

/-! ### The elements that have a start tag -/

mutual
theorem prefix_of_mem_pieces {keepBlank : Bool} {path target : List Nat} {text : String} (node : Node)
    (member : .start target text ∈ node.pieces keepBlank path) : path <+: target := by
  cases node with
  | text value => simp [Node.pieces] at member
  | element head children =>
    rw [Node.pieces] at member
    split at member
    · obtain ⟨rfl, -⟩ : target = path ∧ text = head.startTag := by simpa using member
      exact List.prefix_refl target
    · rcases List.mem_append.mp member with inside | last
      · rcases List.mem_cons.mp inside with same | below
        · obtain ⟨rfl, -⟩ := Piece.start.inj same
          exact List.prefix_refl target
        · obtain ⟨index, -, leads⟩ := prefix_of_mem_piecesAll children below
          exact (List.prefix_append path [index]).trans leads
      · simp at last
theorem prefix_of_mem_piecesAll {keepBlank : Bool} {path target : List Nat} {place : Nat} {text : String}
    (nodes : List Node) (member : .start target text ∈ piecesAll keepBlank path place nodes) :
    ∃ index, place ≤ index ∧ path ++ [index] <+: target := by
  cases nodes with
  | nil => cases member
  | cons node rest =>
    rcases List.mem_append.mp member with first | later
    · exact ⟨place, Nat.le_refl place, prefix_of_mem_pieces node first⟩
    · obtain ⟨index, above, leads⟩ := prefix_of_mem_piecesAll rest later
      exact ⟨index, by omega, leads⟩
end

/-- Of several children the start tags below one come from it alone. -/
theorem start_mem_piecesAll {target : List Nat} {text : String} {index : Nat} {nodes : List Node} {child : Node}
    (found : nodes[index]? = some child) (leads : path ++ [place + index] <+: target) :
    .start target text ∈ piecesAll keepBlank path place nodes ↔
      .start target text ∈ child.pieces keepBlank (path ++ [place + index]) := by
  induction nodes generalizing place index with
  | nil => cases found
  | cons node rest ih =>
    rw [piecesAll, List.mem_append]
    cases index with
    | zero =>
      obtain rfl := Option.some.inj found
      refine or_iff_left fun later => ?_
      obtain ⟨index, above, elsewhere⟩ := prefix_of_mem_piecesAll rest later
      have same := List.prefix_of_prefix_length_le leads elsewhere (by simp)
      simp at same
      omega
    | succ index =>
      have shift : place + 1 + index = place + (index + 1) := by omega
      rw [← shift] at leads ⊢
      rw [← ih found leads]
      refine or_iff_right fun first => ?_
      have same := List.prefix_of_prefix_length_le leads (prefix_of_mem_pieces node first) (by simp)
      simp at same
      omega

/-- Below an element with a void tag there is nothing. -/
theorem start_mem_element {target : List Nat} {text : String} (head : Head) (children : List Node)
    (below : target ≠ path) :
    .start target text ∈ (Node.element head children).pieces keepBlank path ↔
      Tag.isVoid head.tag = false ∧ .start target text ∈ piecesAll keepBlank path 0 children := by
  rw [Node.pieces]
  split
  · rename_i void
    simp [void, below]
  · rename_i full
    simp [full, below]

/-- An element has its start tag in the markup exactly if no element around it has a void tag. -/
theorem start_mem_pieces {root : Option String} {next : Nat} {below : List Nat} {text : String} {node : Node}
    {visit : Visit} (visited : node.visit root next below = some visit) :
    .start (path ++ below) text ∈ node.pieces keepBlank path ↔
      text = visit.head.startTag ∧ ∀ h ∈ visit.around, Tag.isVoid h.tag = false := by
  induction below generalizing node path root next visit with
  | nil =>
    obtain ⟨head, children, rfl, rfl⟩ := Node.visit_nil visited
    have inside : .start path text ∉ piecesAll keepBlank path 0 children := by
      intro member
      obtain ⟨index, -, leads⟩ := prefix_of_mem_piecesAll children member
      have longer := leads.length_le
      rw [List.length_append, List.length_singleton] at longer
      omega
    rw [List.append_nil, Node.pieces]
    split
    · simp
    · simp [inside]
  | cons index below ih =>
    obtain ⟨head, children, child, visit, rfl, found, reached, rfl⟩ := Node.visit_cons visited
    have split : path ++ index :: below = (path ++ [0 + index]) ++ below := by simp
    rw [start_mem_element head children (by simp), split,
      start_mem_piecesAll found (List.prefix_append _ _), ih reached, Visit.under_head, Visit.under_around]
    constructor
    · rintro ⟨full, rfl, outer⟩
      refine ⟨rfl, fun h member => ?_⟩
      rcases List.mem_append.mp member with nearer | last
      · exact outer h nearer
      · obtain rfl := List.mem_singleton.mp last
        exact full
    · rintro ⟨rfl, outer⟩
      exact ⟨outer head (by simp), rfl, fun h member => outer h (by simp [member])⟩

/-- In the markup of an element's children an element below it has its start tag exactly if no element around it
    has a void tag, other than the one whose children they are; that one itself has none. -/
theorem start_mem_children {e : Element} {root : Option String} {next : Nat} {text : String} {visit : Visit}
    (visited : e.toNode.visit root next path = some visit) :
    .start path text ∈ piecesAll keepBlank [] 0 e.children ↔
      text = visit.head.startTag ∧ path ≠ [] ∧ ∀ h ∈ visit.around.dropLast, Tag.isVoid h.tag = false := by
  cases path with
  | nil =>
    refine ⟨fun member => ?_, fun ⟨_, below, _⟩ => absurd rfl below⟩
    obtain ⟨index, -, leads⟩ := prefix_of_mem_piecesAll e.children member
    simp at leads
  | cons index below =>
    obtain ⟨head, children, child, visit, same, found, reached, rfl⟩ := Node.visit_cons visited
    cases same
    have split : index :: below = ([] ++ [0 + index]) ++ below := by simp
    rw [split, start_mem_piecesAll found (List.prefix_append _ _), start_mem_pieces reached]
    simp

end

end TemplateWeaver
