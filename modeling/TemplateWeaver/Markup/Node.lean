import TemplateWeaver.Markup.Info
import TemplateWeaver.Markup.Tag
import TemplateWeaver.Text.Blank

/-!
Annotated markup: a tree of elements and texts. What an element is, apart from its children, is its
head: the tag, the static attributes in their order, and the metadata if there is any.
-/
namespace TemplateWeaver

/-- An element without its children. -/
structure Head where
  tag : String
  attrs : OrderedMap String := .empty
  info : Option Info := none

inductive Node where
  | element (head : Head) (children : List Node)
  | text (value : String)

/-- An element with its children. -/
structure Element where
  head : Head
  children : List Node := []

namespace Head

/-- The id given by the metadata. -/
def infoId? (h : Head) : Option String :=
  h.info.bind Info.elementId

/-- The id by which an element is found: that of the metadata, else the static one. -/
def elementId? (h : Head) : Option String :=
  h.infoId?.or (h.attrs.get? "id")

/-- Equal but for the order in maps. -/
def agrees (h k : Head) : Bool :=
  h.tag == k.tag && h.attrs.agrees (· == ·) k.attrs
    && match h.info, k.info with
      | some i, some j => i.agrees j
      | none, none => true
      | _, _ => false

end Head

namespace Node

/-- The head of an element. -/
def head? : Node → Option Head
  | .element head _ => some head
  | .text _ => none

mutual
/-- Equal but for the order in maps. -/
def agrees : Node → Node → Bool
  | .element head children, .element other others => head.agrees other && agreesAll children others
  | .text value, .text other => value == other
  | _, _ => false
def agreesAll : List Node → List Node → Bool
  | [], [] => true
  | node :: rest, other :: others => agrees node other && agreesAll rest others
  | _, _ => false
end

end Node

namespace Element

def ofTag (tag : String) : Element where
  head := { tag }

def toNode (e : Element) : Node :=
  .element e.head e.children

def withAttr (e : Element) (name value : String) : Element :=
  { e with head := { e.head with attrs := e.head.attrs.insert name value } }

def withChild (e : Element) (child : Node) : Element :=
  { e with children := e.children ++ [child] }

def withInfo (e : Element) (info : Info) : Element :=
  { e with head := { e.head with info := some info } }

/-- Equal but for the order in maps. -/
def agrees (e f : Element) : Bool :=
  e.toNode.agrees f.toNode

end Element

/-- The heads of the elements in a list of nodes. -/
def elementHeads (nodes : List Node) : List Head :=
  nodes.filterMap Node.head?

/-! ### Component definitions

Definitions inside a page are units of their own and no part of the page, so a page is worked on without them. -/

/-- Whether a node is a component definition. -/
def Node.isDefinition : Node → Bool
  | .element head _ => Tag.isDefinition head.tag
  | .text _ => false

mutual
/-- A node without the definitions below it. -/
def Node.withoutDefinitions : Node → Node
  | .element head children => .element head (dropDefinitions children)
  | .text value => .text value
/-- The nodes that are no definitions, without those below them. -/
def dropDefinitions : List Node → List Node
  | [] => []
  | node :: rest =>
    if node.isDefinition then dropDefinitions rest
    else Node.withoutDefinitions node :: dropDefinitions rest
end

/-- An element without the definitions below it. -/
def Element.withoutDefinitions (e : Element) : Element :=
  { e with children := dropDefinitions e.children }

end TemplateWeaver
