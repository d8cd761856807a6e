import TemplateWeaver.Assembly.Codec
import TemplateWeaver.Proofs.Json.MemberOrder

/-!
The schema of units. All that is read in a unit is read by it: the readers of its records are blind to the order of
their members and to members that are not known (`blind_component`, `blind_page`), down to the nodes of its template
(`blind_node`). So a unit is the same in whatever order its text gives the members of records, while its maps keep
theirs (`decode_ignores_member_order`): each part of a unit was read where it stands in the text (`readFrom_unit`).
-/
namespace TemplateWeaver

open Json

/-! ### The schema -/

/-- The records that units consist of. -/
inductive UnitRecord where
  | listener
  | binding
  | classes
  | componentUse
  | conditional
  | repeated
  | info
  | element
  | text
  | component
  | page
  deriving DecidableEq

def attributeShape : Shape UnitRecord :=
  .tagged "kind" [("bound", .binding), ("class", .classes)]

def regionShape : Shape UnitRecord :=
  .tagged "kind" [("conditional", .conditional), ("repeated", .repeated)]

def nodeShape : Shape UnitRecord :=
  .tagged "type" [("element", .element), ("text", .text)]

def unitShape : Shape UnitRecord :=
  .tagged "kind" [("component", .component), ("document", .page)]

def UnitRecord.fields : UnitRecord → List (String × Shape UnitRecord)
  | .listener => [("action", .plain), ("listenerField", .plain)]
  | .binding => [("expression", .plain), ("stopper", .plain)]
  | .classes => [("bindings", .list (.record .binding))]
  | .componentUse => [("constructor", .plain), ("file", .plain), ("values", .map .plain)]
  | .conditional => [("condition", .plain), ("stopper", .plain)]
  | .repeated => [("loopVariable", .plain), ("loopItems", .plain), ("stopper", .plain)]
  | .info =>
    [("identifier", .plain), ("elementId", .plain), ("events", .map (.list (.record .listener))),
     ("attributes", .map attributeShape), ("contentBinding", .record .binding), ("component", .record .componentUse),
     ("region", regionShape)]
  | .element => [("name", .plain), ("attrs", .map .plain), ("children", .list nodeShape), ("info", .record .info)]
  | .text => [("value", .plain)]
  | .component =>
    [("fileName", .plain), ("constructor", .plain), ("userCode", .plain), ("template", .record .element),
     ("shadowDom", .plain), ("inlineMarkup", .plain), ("references", .list (.record .componentUse))]
  | .page =>
    [("fileName", .plain), ("libraryName", .plain), ("userCode", .plain), ("body", .record .element),
     ("references", .list (.record .componentUse))]

def unitSchema : Schema UnitRecord where
  fields := UnitRecord.fields
  distinct kind := by cases kind <;> decide

/-! ### Metadata -/

theorem blind_listener : unitSchema.Blind (.record .listener) Listener.read := by
  refine Schema.Blind.record (S := unitSchema) fun r s alike => ?_
  rw [alike.required "action" (by decide) (.plain readText),
    alike.required "listenerField" (by decide) (.plain readText)]

theorem blind_binding : unitSchema.Blind (.record .binding) Binding.read := by
  refine Schema.Blind.record (S := unitSchema) fun r s alike => ?_
  rw [alike.required "expression" (by decide) (.plain readText), alike.required "stopper" (by decide) (.plain readText)]

theorem blind_attribute : unitSchema.Blind attributeShape AttributeBinding.read := by
  refine Schema.Blind.tagged (by decide) (List.forall_mem_cons.mpr ⟨?_, List.forall_mem_singleton.mpr ?_⟩)
  · intro room a b edit
    exact congrArg (Option.map AttributeBinding.value) (blind_binding room edit)
  · refine Schema.Blind.record (S := unitSchema) fun r s alike => ?_
    rw [alike.required "bindings" (by decide) blind_binding.list]

theorem blind_componentUse : unitSchema.Blind (.record .componentUse) ComponentUse.read := by
  refine Schema.Blind.record (S := unitSchema) fun r s alike => ?_
  rw [alike.required "constructor" (by decide) (.plain readText), alike.required "file" (by decide) (.plain readText),
    alike.optional "values" (by decide) (Schema.Blind.plain readText).map]

theorem blind_region : unitSchema.Blind regionShape Region.read := by
  refine Schema.Blind.tagged (by decide) (List.forall_mem_cons.mpr ⟨?_, List.forall_mem_singleton.mpr ?_⟩)
  · refine Schema.Blind.record (S := unitSchema) fun r s alike => ?_
    rw [alike.required "condition" (by decide) (.plain readText),
      alike.required "stopper" (by decide) (.plain readText)]
  · refine Schema.Blind.record (S := unitSchema) fun r s alike => ?_
    rw [alike.required "loopVariable" (by decide) (.plain readText),
      alike.required "loopItems" (by decide) (.plain readText), alike.required "stopper" (by decide) (.plain readText)]

theorem blind_info : unitSchema.Blind (.record .info) Info.read := by
  refine Schema.Blind.record (S := unitSchema) fun r s alike => ?_
  rw [alike.nullable "identifier" (by decide) (.plain readText),
    alike.nullable "elementId" (by decide) (.plain readText),
    alike.optional "events" (by decide) blind_listener.list.map,
    alike.optional "attributes" (by decide) blind_attribute.map,
    alike.nullable "contentBinding" (by decide) blind_binding,
    alike.nullable "component" (by decide) blind_componentUse, alike.nullable "region" (by decide) blind_region]

/-! ### Nodes -/

section
variable {child : Bool → Json → Option Node}

/-- An element is blind to the order of members if its children are. -/
theorem blind_element (blind : ∀ {a b : Json}, unitSchema.Edit nodeShape a b → child true a = child true b) :
    unitSchema.Blind (.record .element) (Node.readElement child) := by
  have children : unitSchema.Blind (.list nodeShape) (readList fun _ => child) :=
    Schema.Blind.list fun _ _ _ edit => blind edit
  refine Schema.Blind.record (S := unitSchema) fun r s alike => ?_
  rw [alike.required "name" (by decide) (.plain readText),
    alike.optional "attrs" (by decide) (Schema.Blind.plain readText).map, alike.nullable "info" (by decide) blind_info,
    alike.optional "children" (by decide) children]

theorem blind_nodeWith (blind : ∀ {a b : Json}, unitSchema.Edit nodeShape a b → child true a = child true b) :
    unitSchema.Blind nodeShape (Node.readWith child) := by
  refine Schema.Blind.tagged (by decide) (List.forall_mem_cons.mpr ⟨?_, List.forall_mem_singleton.mpr ?_⟩)
  · intro room a b edit
    exact congrArg (Option.map Element.toNode) (blind_element blind room edit)
  · have value : unitSchema.Blind (.record .text) Node.readTextValue := by
      refine Schema.Blind.record (S := unitSchema) fun r s alike => ?_
      rw [alike.required "value" (by decide) (.plain readText)]
    intro room a b edit
    exact congrArg (Option.map Node.text) (value room edit)

end

/-- The room for a node's children is less by two, so this is by induction on the room. -/
theorem blind_node : unitSchema.Blind nodeShape Node.read
  | 0, _, _, _ => rfl
  | 1, _, _, edit => blind_nodeWith (fun _ => rfl) 1 edit
  | room + 2, _, _, edit => blind_nodeWith (blind_node room) (room + 2) edit

theorem blind_template : unitSchema.Blind (.record .element) Element.read :=
  fun room _ _ edit => blind_element (blind_node (room - 2)) room edit

/-! ### Units -/

theorem blind_component : unitSchema.Blind (.record .component) Component.read := by
  refine Schema.Blind.record (S := unitSchema) fun r s alike => ?_
  rw [alike.required "fileName" (by decide) (.plain readText),
    alike.required "constructor" (by decide) (.plain readText),
    alike.optional "userCode" (by decide) (.plain readText), alike.required "template" (by decide) blind_template,
    alike.optional "shadowDom" (by decide) (.plain readFlag),
    alike.optional "inlineMarkup" (by decide) (.plain readFlag),
    alike.optional "references" (by decide) blind_componentUse.list]

theorem blind_page : unitSchema.Blind (.record .page) Page.read := by
  refine Schema.Blind.record (S := unitSchema) fun r s alike => ?_
  rw [alike.required "fileName" (by decide) (.plain readText),
    alike.nullable "libraryName" (by decide) (.plain readText),
    alike.optional "userCode" (by decide) (.plain readText), alike.required "body" (by decide) blind_template,
    alike.optional "references" (by decide) blind_componentUse.list]

theorem read_rearranged {json edited : Json} (rearranged : unitSchema.Rearranged unitShape json edited) {room : Nat}
    (shallow : json.depth ≤ room → edited.depth ≤ room) :
    CompilationUnit.read room false edited = CompilationUnit.read room false json := by
  refine rearranged.readTagged_eq (by decide) (List.forall_mem_cons.mpr ⟨?_, List.forall_mem_singleton.mpr ?_⟩) shallow
  · intro room a b edit
    exact congrArg (Option.map CompilationUnit.component) (blind_component room edit)
  · intro room a b edit
    exact congrArg (Option.map CompilationUnit.page) (blind_page room edit)

/-! ### Maps -/

section
variable {room : Nat} {held : Bool} {json : Json}

theorem of_readElement {child : Bool → Json → Option Node} {e : Element}
    (found : Node.readElement child room held json = some e) :
    ∃ r, readRecord (unitSchema.names .element) room held json = some r ∧
      r.optional "attrs" .empty (readMap readText) = some e.head.attrs ∧
      r.nullable "info" Info.read = some e.head.info ∧
      r.optional "children" [] (readList fun _ => child) = some e.children := by
  obtain ⟨r, record, found⟩ := Option.bind_eq_some_iff.mp found
  obtain ⟨tag, -, found⟩ := Option.bind_eq_some_iff.mp found
  obtain ⟨attrs, map, found⟩ := Option.bind_eq_some_iff.mp found
  obtain ⟨info, given, found⟩ := Option.bind_eq_some_iff.mp found
  obtain ⟨children, listed, found⟩ := Option.bind_eq_some_iff.mp found
  cases found
  exact ⟨r, record, map, given, listed⟩

theorem of_readInfo {i : Info} (found : Info.read room held json = some i) :
    ∃ r, readRecord (unitSchema.names .info) room held json = some r ∧
      r.optional "events" .empty (readMap (readList Listener.read)) = some i.events ∧
      r.optional "attributes" .empty (readMap AttributeBinding.read) = some i.attributes ∧
      r.nullable "component" ComponentUse.read = some i.component := by
  obtain ⟨r, record, found⟩ := Option.bind_eq_some_iff.mp found
  obtain ⟨field, -, found⟩ := Option.bind_eq_some_iff.mp found
  obtain ⟨elementId, -, found⟩ := Option.bind_eq_some_iff.mp found
  obtain ⟨events, eventMap, found⟩ := Option.bind_eq_some_iff.mp found
  obtain ⟨attributes, attributeMap, found⟩ := Option.bind_eq_some_iff.mp found
  obtain ⟨content, -, found⟩ := Option.bind_eq_some_iff.mp found
  obtain ⟨component, named, found⟩ := Option.bind_eq_some_iff.mp found
  obtain ⟨region, -, found⟩ := Option.bind_eq_some_iff.mp found
  cases found
  exact ⟨r, record, eventMap, attributeMap, named⟩

theorem attrs_of_readElement {child : Bool → Json → Option Node} {e : Element}
    (found : Node.readElement child room held json = some e) :
    ∃ r, readRecord (unitSchema.names .element) room held json = some r ∧ r.HoldsMap "attrs" readText e.head.attrs := by
  obtain ⟨r, record, attrs, -, -⟩ := of_readElement found
  exact ⟨r, record, Record.holdsMap_of_optional attrs⟩

theorem maps_of_readInfo {i : Info} (found : Info.read room held json = some i) :
    ∃ r, readRecord (unitSchema.names .info) room held json = some r ∧
      r.HoldsMap "events" (readList Listener.read) i.events ∧
      r.HoldsMap "attributes" AttributeBinding.read i.attributes := by
  obtain ⟨r, record, events, attributes, -⟩ := of_readInfo found
  exact ⟨r, record, Record.holdsMap_of_optional events, Record.holdsMap_of_optional attributes⟩

theorem values_of_readUse {c : ComponentUse} (found : ComponentUse.read room held json = some c) :
    ∃ r, readRecord (unitSchema.names .componentUse) room held json = some r ∧
      r.HoldsMap "values" readText c.values := by
  obtain ⟨r, record, found⟩ := Option.bind_eq_some_iff.mp found
  obtain ⟨className, -, found⟩ := Option.bind_eq_some_iff.mp found
  obtain ⟨file, -, found⟩ := Option.bind_eq_some_iff.mp found
  obtain ⟨values, map, found⟩ := Option.bind_eq_some_iff.mp found
  cases found
  exact ⟨r, record, Record.holdsMap_of_optional map⟩

end

/-! ### Where parts are read -/

/-- Metadata was read from a value, and the component that it names from a field there. -/
structure Info.ReadFrom (room : Nat) (held : Bool) (json : Json) (i : Info) : Prop where
  read : Info.read room held json = some i
  component : ∀ c ∈ i.component, ∃ r, readRecord (unitSchema.names .info) room held json = some r ∧
    r.required "component" ComponentUse.read = some c

mutual
/-- An element was read from a value, its metadata from a field there, and its children from the items of another. -/
inductive Element.ReadFrom : Nat → Bool → Json → Element → Prop
  | intro {room : Nat} {held : Bool} {json : Json} {e : Element} {r : Record}
      (read : Element.read room held json = some e)
      (record : readRecord (unitSchema.names .element) room held json = some r)
      (info : ∀ i ∈ e.head.info, ∃ value, r.fields.lookup "info" = some value ∧ i.ReadFrom r.room r.held value)
      (length : (r.items "children").length = e.children.length)
      (children : ∀ {item node}, (item, node) ∈ (r.items "children").zip e.children →
        Node.ReadFrom (r.room - 1) r.held item node) :
      Element.ReadFrom room held json e
/-- A node was read from a value with a tag: all that is in it was read where it stands. -/
inductive Node.ReadFrom : Nat → Bool → Json → Node → Prop
  | text {room : Nat} {held : Bool} {json record : Json} {value : String}
      (split : splitTag? "type" ["element", "text"] held json = some ("text", record))
      (read : Node.readTextValue room true record = some value) : Node.ReadFrom room held json (.text value)
  | element {room : Nat} {held : Bool} {json record : Json} {e : Element}
      (split : splitTag? "type" ["element", "text"] held json = some ("element", record))
      (read : Element.ReadFrom room true record e) : Node.ReadFrom room held json e.toNode
end

/-- The tree and the references of a unit were read from fields of its record. -/
structure ReadWithin (r : Record) (treeField : String) (tree : Element) (references : List ComponentUse) : Prop where
  tree : ∃ value, r.fields.lookup treeField = some value ∧ tree.ReadFrom r.room r.held value
  references : List.Forall₂ (fun item c => ComponentUse.read (r.room - 1) r.held item = some c) (r.items "references")
    references

/-- All elements, metadata and references of a unit were read where they stand in a value. -/
def CompilationUnit.ReadFrom (room : Nat) (json : Json) : CompilationUnit → Prop
  | .component u => ∃ record r, splitTag? "kind" ["component", "document"] false json = some ("component", record) ∧
    readRecord (unitSchema.names .component) room true record = some r ∧ ReadWithin r "template" u.template u.references
  | .page u => ∃ record r, splitTag? "kind" ["component", "document"] false json = some ("document", record) ∧
    readRecord (unitSchema.names .page) room true record = some r ∧ ReadWithin r "body" u.body u.references

section
variable {room : Nat} {held : Bool} {json : Json}

theorem readFrom_info {i : Info} (found : Info.read room held json = some i) : i.ReadFrom room held json := by
  obtain ⟨r, record, -, -, given⟩ := of_readInfo found
  refine ⟨found, fun c named => ⟨r, record, ?_⟩⟩
  rw [Option.mem_def.mp named] at given
  exact Record.required_of_nullable given

/-- An element was read where it stands if its children were. -/
theorem readFrom_element {e : Element}
    (inside : ∀ {held json node}, Node.read (room - 2) held json = some node → node.ReadFrom (room - 2) held json)
    (found : Element.read room held json = some e) : e.ReadFrom room held json := by
  obtain ⟨r, record, -, given, listed⟩ := of_readElement found
  obtain ⟨rfl, rfl⟩ := of_readRecord record
  obtain ⟨length, each⟩ := List.forall₂_iff_zip.mp (Record.forall₂_items listed)
  refine .intro found record (fun i named => ?_) length fun paired => inside (each paired)
  rw [Option.mem_def.mp named] at given
  obtain ⟨value, field, read⟩ := Option.bind_eq_some_iff.mp (Record.required_of_nullable given)
  exact ⟨value, field, readFrom_info read⟩

theorem readFrom_nodeWith {node : Node}
    (inside : ∀ {held json node}, Node.read (room - 2) held json = some node → node.ReadFrom (room - 2) held json)
    (found : Node.readWith (Node.read (room - 2)) room held json = some node) : node.ReadFrom room held json := by
  obtain ⟨tag, record, known, split, found⟩ := of_readTagged found
  rcases List.mem_pair.mp known with rfl | rfl
  · rw [if_pos rfl] at found
    obtain ⟨e, read, rfl⟩ := Option.map_eq_some_iff.mp found
    exact .element split (readFrom_element inside read)
  · rw [if_neg (by decide)] at found
    obtain ⟨value, read, rfl⟩ := Option.map_eq_some_iff.mp found
    exact .text split read

end

/-- By induction on the room, as for `blind_node`. -/
theorem readFrom_node : ∀ (room : Nat) {held : Bool} {json : Json} {node : Node},
    Node.read room held json = some node → node.ReadFrom room held json
  | 0, _, _, _, found => by cases found
  | 1, _, _, _, found => readFrom_nodeWith (readFrom_node 0) found
  | room + 2, _, _, _, found => readFrom_nodeWith (readFrom_node room) found

theorem readFrom_template {room : Nat} {held : Bool} {json : Json} {e : Element}
    (found : Element.read room held json = some e) : e.ReadFrom room held json :=
  readFrom_element (readFrom_node (room - 2)) found

theorem readWithin_component {room : Nat} {held : Bool} {json : Json} {u : Component}
    (found : Component.read room held json = some u) :
    ∃ r, readRecord (unitSchema.names .component) room held json = some r ∧
      ReadWithin r "template" u.template u.references := by
  obtain ⟨r, record, found⟩ := Option.bind_eq_some_iff.mp found
  obtain ⟨fileName, -, found⟩ := Option.bind_eq_some_iff.mp found
  obtain ⟨className, -, found⟩ := Option.bind_eq_some_iff.mp found
  obtain ⟨userCode, -, found⟩ := Option.bind_eq_some_iff.mp found
  obtain ⟨template, given, found⟩ := Option.bind_eq_some_iff.mp found
  obtain ⟨shadowRoot, -, found⟩ := Option.bind_eq_some_iff.mp found
  obtain ⟨inlineMarkup, -, found⟩ := Option.bind_eq_some_iff.mp found
  obtain ⟨references, listed, found⟩ := Option.bind_eq_some_iff.mp found
  cases found
  obtain ⟨value, field, read⟩ := Option.bind_eq_some_iff.mp given
  exact ⟨r, record, ⟨value, field, readFrom_template read⟩, Record.forall₂_items listed⟩

theorem readWithin_page {room : Nat} {held : Bool} {json : Json} {u : Page}
    (found : Page.read room held json = some u) :
    ∃ r, readRecord (unitSchema.names .page) room held json = some r ∧ ReadWithin r "body" u.body u.references := by
  obtain ⟨r, record, found⟩ := Option.bind_eq_some_iff.mp found
  obtain ⟨fileName, -, found⟩ := Option.bind_eq_some_iff.mp found
  obtain ⟨libraryName, -, found⟩ := Option.bind_eq_some_iff.mp found
  obtain ⟨userCode, -, found⟩ := Option.bind_eq_some_iff.mp found
  obtain ⟨body, given, found⟩ := Option.bind_eq_some_iff.mp found
  obtain ⟨references, listed, found⟩ := Option.bind_eq_some_iff.mp found
  cases found
  obtain ⟨value, field, read⟩ := Option.bind_eq_some_iff.mp given
  exact ⟨r, record, ⟨value, field, readFrom_template read⟩, Record.forall₂_items listed⟩

theorem readFrom_unit {room : Nat} {json : Json} {unit : CompilationUnit}
    (found : CompilationUnit.read room false json = some unit) : unit.ReadFrom room json := by
  obtain ⟨tag, record, known, split, found⟩ := of_readTagged found
  rcases List.mem_pair.mp known with rfl | rfl
  · rw [if_pos rfl] at found
    obtain ⟨u, read, rfl⟩ := Option.map_eq_some_iff.mp found
    obtain ⟨r, fields, within⟩ := readWithin_component read
    exact ⟨record, r, split, fields, within⟩
  · rw [if_neg (by decide)] at found
    obtain ⟨u, read, rfl⟩ := Option.map_eq_some_iff.mp found
    obtain ⟨r, fields, within⟩ := readWithin_page read
    exact ⟨record, r, split, fields, within⟩

/-! ### Texts -/

/-- Texts that differ in the order of members of records, and in members that are not known there, are read as the
    same unit or both refused. In maps the order counts: a name has its first place and its last value. That is so in
    all of a unit, for its elements, metadata and references were read where they stand in the text. -/
theorem decode_ignores_member_order :
    (∀ {text other : String} {json edited : Json}, parse? text = some json → parse? other = some edited →
      unitSchema.Rearranged unitShape json edited → (json.depth ≤ nestingLimit → edited.depth ≤ nestingLimit) →
      decode? CompilationUnit.read other = decode? CompilationUnit.read text) ∧
    (∀ {child : Bool → Json → Option Node} {room : Nat} {held : Bool} {json : Json} {e : Element},
      Node.readElement child room held json = some e →
      ∃ r, readRecord (unitSchema.names .element) room held json = some r ∧
        r.HoldsMap "attrs" readText e.head.attrs) ∧
    (∀ {room : Nat} {held : Bool} {json : Json} {i : Info}, Info.read room held json = some i →
      ∃ r, readRecord (unitSchema.names .info) room held json = some r ∧
        r.HoldsMap "events" (readList Listener.read) i.events ∧
        r.HoldsMap "attributes" AttributeBinding.read i.attributes) ∧
    (∀ {room : Nat} {held : Bool} {json : Json} {c : ComponentUse}, ComponentUse.read room held json = some c →
      ∃ r, readRecord (unitSchema.names .componentUse) room held json = some r ∧
        r.HoldsMap "values" readText c.values) ∧
    ∀ {text : String} {unit : CompilationUnit}, decode? CompilationUnit.read text = some unit →
      ∃ json, parse? text = some json ∧ unit.ReadFrom nestingLimit json := by
  refine ⟨?_, attrs_of_readElement, maps_of_readInfo, values_of_readUse, ?_⟩
  · intro text other json edited parsed parsedToo rearranged shallow
    rw [decode?, decode?, parsed, parsedToo]
    exact read_rearranged rearranged shallow
  · intro text unit decoded
    obtain ⟨json, parsed, found⟩ := Option.bind_eq_some_iff.mp decoded
    exact ⟨json, parsed, readFrom_unit found⟩

/-- An element with an attribute that is given twice. -/
def letterFields : List (String × Json) :=
  [("name", .ofString "p"),
   ("attrs", .ofFields [("b", .ofString "1"), ("a", .ofString "2"), ("b", .ofString "3")])]

def letter : Json :=
  .ofFields [("kind", .ofString "document"), ("fileName", .ofString "a"), ("body", .ofFields letterFields)]

/-- The tag comes last, and the element has a member that is not known. -/
def letterEdited : Json :=
  .ofFields
    [("body", .ofFields (("note", .array [.null]) :: letterFields)), ("fileName", .ofString "a"),
     ("kind", .ofString "document")]

/-- The attributes of the body, for a page. -/
def letterAttrs? : CompilationUnit → Option (List (String × String))
  | .component _ => none
  | .page u => some u.body.head.attrs.entries

theorem letter_rearranged : unitSchema.Rearranged unitShape letter letterEdited := by
  have noted : unitSchema.Edit (.record .element) (.ofFields letterFields)
      (.ofFields (("note", .array [.null]) :: letterFields)) :=
    .extra rfl (by decide) (.array (List.forall_mem_singleton.mpr .null))
  have inBody := @Schema.Edit.field _ unitSchema unitShape (.record .element)
    [(some "kind", .ofString "document"), (some "fileName", .ofString "a")] [] "body" _ _ (by decide) noted
  refine .tail (.single inBody) (.reorder rfl ?_)
  exact (List.reverse_perm _).symm

theorem decode_ignores_member_order_letter :
    decode? CompilationUnit.read (render letterEdited) = decode? CompilationUnit.read (render letter) ∧
      ∃ u : Page, decode? CompilationUnit.read (render letter) = some (.page u) ∧
        u.body.head.attrs.entries = [("b", "3"), ("a", "2")] ∧
        ∃ json, parse? (render letter) = some json ∧ (CompilationUnit.page u).ReadFrom nestingLimit json := by
  have fields : ∀ field ∈ letterFields, Textual field.2 := by
    refine List.forall_mem_cons.mpr ⟨.text _, List.forall_mem_singleton.mpr (.object ?_)⟩
    simp [faithful_text.textual]
  have textual : Textual letter := .object (by simp [faithful_text.textual, Textual.object fields])
  have textualToo : Textual letterEdited := by
    have body : Textual (.ofFields (("note", .array [.null]) :: letterFields)) :=
      .object (List.forall_mem_cons.mpr ⟨.array (List.forall_mem_singleton.mpr .null), fields⟩)
    exact .object (by simp [faithful_text.textual, body])
  have shallow : letter.depth ≤ nestingLimit → letterEdited.depth ≤ nestingLimit := fun _ => by decide
  have decoded : (decode? CompilationUnit.read (render letter)).bind letterAttrs?
      = some [("b", "3"), ("a", "2")] := by decide +kernel
  obtain ⟨unit, given, attrs⟩ := Option.bind_eq_some_iff.mp decoded
  cases unit with
  | component u => cases attrs
  | page u =>
    exact ⟨decode_ignores_member_order.1 textual.parse?_render textualToo.parse?_render letter_rearranged shallow,
      u, given, Option.some.inj attrs, decode_ignores_member_order.2.2.2.2 given⟩

end TemplateWeaver
