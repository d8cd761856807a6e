import TemplateWeaver.Json.Shape
import TemplateWeaver.Markup.Node

/-!
Markup and metadata as JSON. Writing gives every field in a fixed order, tags first; reading allows
for fields left out.
-/
namespace TemplateWeaver

open Json

/-- A text or null. -/
def nullableText (value : Option String) : Json :=
  match value with
  | some s => .ofString s
  | none => .null

/-- A map by name, in its order. -/
def mapJson {α : Type} (write : α → Json) (m : OrderedMap α) : Json :=
  .ofFields (m.entries.map fun entry => (entry.1, write entry.2))

/-! ### Metadata -/

namespace Listener

def toJson (l : Listener) : Json :=
  .ofFields [("action", .ofString l.action), ("listenerField", .ofString l.field)]

def read : Reader Listener := fun room held json => do
  let r ← readRecord ["action", "listenerField"] room held json
  return { action := ← r.required "action" readText
           field := ← r.required "listenerField" readText }

end Listener

namespace Binding

/-- The members of a binding. -/
def fields (b : Binding) : List (String × Json) :=
  [("expression", .ofString b.expression), ("stopper", .ofString b.stopper)]

def toJson (b : Binding) : Json :=
  .ofFields b.fields

def read : Reader Binding := fun room held json => do
  let r ← readRecord ["expression", "stopper"] room held json
  return { expression := ← r.required "expression" readText
           stopper := ← r.required "stopper" readText }

end Binding

namespace AttributeBinding

def toJson : AttributeBinding → Json
  | .value binding => .ofFields (("kind", .ofString "bound") :: binding.fields)
  | .classes bindings =>
    .ofFields [("kind", .ofString "class"), ("bindings", .array (bindings.map Binding.toJson))]

def read : Reader AttributeBinding :=
  readTagged "kind" ["bound", "class"] fun tag room held json =>
    if tag = "bound" then (Binding.read room held json).map .value
    else do
      let r ← readRecord ["bindings"] room held json
      return .classes (← r.required "bindings" (readList Binding.read))

end AttributeBinding

namespace ComponentUse

def toJson (c : ComponentUse) : Json :=
  .ofFields
    [("constructor", .ofString c.className), ("file", .ofString c.file),
     ("values", mapJson .ofString c.values)]

def read : Reader ComponentUse := fun room held json => do
  let r ← readRecord ["constructor", "file", "values"] room held json
  return { className := ← r.required "constructor" readText
           file := ← r.required "file" readText
           values := ← r.optional "values" .empty (readMap readText) }

end ComponentUse

namespace Region

def toJson : Region → Json
  | .conditional condition stopper =>
    .ofFields
      [("kind", .ofString "conditional"), ("condition", .ofString condition),
       ("stopper", .ofString stopper)]
  | .repeated item collection stopper =>
    .ofFields
      [("kind", .ofString "repeated"), ("loopVariable", .ofString item),
       ("loopItems", .ofString collection), ("stopper", .ofString stopper)]

def read : Reader Region :=
  readTagged "kind" ["conditional", "repeated"] fun tag room held json =>
    if tag = "conditional" then do
      let r ← readRecord ["condition", "stopper"] room held json
      return .conditional (← r.required "condition" readText) (← r.required "stopper" readText)
    else do
      let r ← readRecord ["loopVariable", "loopItems", "stopper"] room held json
      return .repeated (← r.required "loopVariable" readText) (← r.required "loopItems" readText)
        (← r.required "stopper" readText)

end Region

namespace Info

def toJson (i : Info) : Json :=
  .ofFields
    [("identifier", nullableText i.field), ("elementId", nullableText i.elementId),
     ("events", mapJson (fun listeners => .array (listeners.map Listener.toJson)) i.events),
     ("attributes", mapJson AttributeBinding.toJson i.attributes),
     ("contentBinding", (i.content.map Binding.toJson).getD .null),
     ("component", (i.component.map ComponentUse.toJson).getD .null),
     ("region", (i.region.map Region.toJson).getD .null)]

def fieldNames : List String :=
  ["identifier", "elementId", "events", "attributes", "contentBinding", "component", "region"]

def read : Reader Info := fun room held json => do
  let r ← readRecord fieldNames room held json
  return { field := ← r.nullable "identifier" readText
           elementId := ← r.nullable "elementId" readText
           events := ← r.optional "events" .empty (readMap (readList Listener.read))
           attributes := ← r.optional "attributes" .empty (readMap AttributeBinding.read)
           content := ← r.nullable "contentBinding" Binding.read
           component := ← r.nullable "component" ComponentUse.read
           region := ← r.nullable "region" Region.read }

end Info

/-! ### Nodes -/

namespace Node

/-- The members of an element, given those of its children. -/
def elementFields (head : Head) (children : List Json) : List (String × Json) :=
  [("name", .ofString head.tag), ("attrs", mapJson .ofString head.attrs),
   ("children", .array children), ("info", (head.info.map Info.toJson).getD .null)]

mutual
def toJson : Node → Json
  | .element head children =>
    .ofFields (("type", .ofString "element") :: elementFields head (toJsonAll children))
  | .text value => .ofFields [("type", .ofString "text"), ("value", .ofString value)]
def toJsonAll : List Node → List Json
  | [] => []
  | node :: rest => toJson node :: toJsonAll rest
end

/-- An element whose children `child` reads. -/
def readElement (child : Bool → Json → Option Node) : Reader Element := fun room held json => do
  let r ← readRecord ["name", "attrs", "children", "info"] room held json
  return { head :=
             { tag := ← r.required "name" readText
               attrs := ← r.optional "attrs" .empty (readMap readText)
               info := ← r.nullable "info" Info.read }
           children := ← r.optional "children" [] (readList fun _ => child) }

/-- The text of a record that holds one. -/
def readTextValue : Reader String := fun room held json => do
  let r ← readRecord ["value"] room held json
  r.required "value" readText

/-- A node whose children `child` reads. -/
def readWith (child : Bool → Json → Option Node) : Reader Node :=
  readTagged "type" ["element", "text"] fun tag room held json =>
    if tag = "element" then (readElement child room held json).map Element.toNode
    else (readTextValue room held json).map .text

/-- A node. Between an element and its children lie two containers: its own and their list. -/
def read : Reader Node
  | 0 => fun _ _ => none
  | 1 => readWith (fun _ _ => none) 1
  | room + 2 => readWith (read room) (room + 2)

end Node

namespace Element

def toJson (e : Element) : Json :=
  .ofFields (Node.elementFields e.head (Node.toJsonAll e.children))

def read : Reader Element := fun room =>
  Node.readElement (Node.read (room - 2)) room

end Element

end TemplateWeaver
