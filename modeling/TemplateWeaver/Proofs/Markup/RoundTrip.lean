import TemplateWeaver.Proofs.Json.Shape

/-!
Markup and metadata are read back as they were written. Each shape is read field by field, and a tree
of nodes by induction on it: an element takes two containers from the room that its children have
(`Node.read_toJson`).
-/
namespace TemplateWeaver

open Json

/-! ### Metadata -/

theorem faithful_nullableText : Faithful (readNullable readText) nullableText where
  textual value := by
    cases value with
    | none => exact .null
    | some s => exact .text s
  back value _ _ _ := by cases value <;> rfl

theorem Listener.faithful : Faithful Listener.read Listener.toJson where
  textual l := .object (by simp [faithful_text.textual])
  back l room held fits := by
    obtain ⟨r, record, holds⟩ := readRecord_ofFields ["action", "listenerField"] rfl (by decide) held fits
    have action := faithful_text.required (holds "action" _ rfl)
    have field := faithful_text.required (holds "listenerField" _ rfl)
    simp [Listener.read, Listener.toJson, record, action, field]

theorem Binding.faithful : Faithful Binding.read Binding.toJson where
  textual b := .object (by simp [Binding.fields, faithful_text.textual])
  back b room held fits := by
    obtain ⟨r, record, holds⟩ := readRecord_ofFields ["expression", "stopper"] rfl (by decide) held fits
    have expression := faithful_text.required (holds "expression" _ rfl)
    have stopper := faithful_text.required (holds "stopper" _ rfl)
    simp [Binding.read, Binding.toJson, record, expression, stopper]

theorem AttributeBinding.textual_toJson (b : AttributeBinding) : Textual b.toJson := by
  cases b with
  | value binding => exact .object (by simp [Binding.fields, faithful_text.textual])
  | classes bindings => exact .object (by simp [faithful_text.textual, Binding.faithful.list.textual])

theorem AttributeBinding.faithful : Faithful AttributeBinding.read AttributeBinding.toJson where
  textual := AttributeBinding.textual_toJson
  back b room held fits := by
    have textual := b.textual_toJson
    cases b with
    | value binding =>
      refine readTagged_ofFields held (by decide) (by simp [Binding.fields]) textual fits fun within => ?_
      rw [if_pos rfl]
      exact congrArg (Option.map _) (Binding.faithful.back binding true within)
    | classes bindings =>
      refine readTagged_ofFields held (by decide) (by simp) textual fits fun within => ?_
      obtain ⟨r, record, holds⟩ := readRecord_ofFields ["bindings"] rfl (by decide) true within
      have bindings := Binding.faithful.list.required (holds "bindings" _ rfl)
      simp [record, bindings]

theorem ComponentUse.faithful : Faithful ComponentUse.read ComponentUse.toJson where
  textual c := .object (by simp [faithful_text.textual, faithful_text.map.textual])
  back c room held fits := by
    obtain ⟨r, record, holds⟩ := readRecord_ofFields ["constructor", "file", "values"] rfl (by decide) held fits
    have className := faithful_text.required (holds "constructor" _ rfl)
    have file := faithful_text.required (holds "file" _ rfl)
    have values := faithful_text.map.optional (holds "values" _ rfl) .empty
    simp [ComponentUse.read, ComponentUse.toJson, record, className, file, values]

theorem Region.textual_toJson (region : Region) : Textual region.toJson := by
  cases region <;> exact .object (by simp [faithful_text.textual])

theorem Region.faithful : Faithful Region.read Region.toJson where
  textual := Region.textual_toJson
  back region room held fits := by
    have textual := region.textual_toJson
    cases region with
    | conditional condition stopper =>
      refine readTagged_ofFields held (by decide) (by simp) textual fits fun within => ?_
      obtain ⟨r, record, holds⟩ := readRecord_ofFields ["condition", "stopper"] rfl (by decide) true within
      have condition := faithful_text.required (holds "condition" _ rfl)
      have stopper := faithful_text.required (holds "stopper" _ rfl)
      simp [record, condition, stopper]
    | repeated item collection stopper =>
      refine readTagged_ofFields held (by decide) (by simp) textual fits fun within => ?_
      obtain ⟨r, record, holds⟩ :=
        readRecord_ofFields ["loopVariable", "loopItems", "stopper"] rfl (by decide) true within
      have item := faithful_text.required (holds "loopVariable" _ rfl)
      have collection := faithful_text.required (holds "loopItems" _ rfl)
      have stopper := faithful_text.required (holds "stopper" _ rfl)
      simp [record, item, collection, stopper]

theorem ofFields_ne_null (fields : List (String × Json)) : ofFields fields ≠ .null := by
  simp [ofFields]

theorem Binding.faithful_nullable :
    Faithful (readNullable Binding.read) fun binding => (binding.map Binding.toJson).getD .null :=
  Binding.faithful.nullable fun _ => ofFields_ne_null _

theorem ComponentUse.faithful_nullable :
    Faithful (readNullable ComponentUse.read) fun use => (use.map ComponentUse.toJson).getD .null :=
  ComponentUse.faithful.nullable fun _ => ofFields_ne_null _

theorem Region.faithful_nullable :
    Faithful (readNullable Region.read) fun region => (region.map Region.toJson).getD .null :=
  Region.faithful.nullable fun region => by cases region <;> exact ofFields_ne_null _

theorem Info.faithful : Faithful Info.read Info.toJson where
  textual i := .object (by
    simp [faithful_nullableText.textual, Listener.faithful.list.map.textual, AttributeBinding.faithful.map.textual,
      Binding.faithful_nullable.textual, ComponentUse.faithful_nullable.textual, Region.faithful_nullable.textual])
  back i room held fits := by
    obtain ⟨r, record, holds⟩ := readRecord_ofFields Info.fieldNames rfl (by decide) held fits
    have field := faithful_nullableText.optional (holds "identifier" _ rfl) none
    have elementId := faithful_nullableText.optional (holds "elementId" _ rfl) none
    have events := Listener.faithful.list.map.optional (holds "events" _ rfl) .empty
    have attributes := AttributeBinding.faithful.map.optional (holds "attributes" _ rfl) .empty
    have content := Binding.faithful_nullable.optional (holds "contentBinding" _ rfl) none
    have component := ComponentUse.faithful_nullable.optional (holds "component" _ rfl) none
    have region := Region.faithful_nullable.optional (holds "region" _ rfl) none
    simp [Info.read, Info.toJson, Record.nullable, record, field, elementId, events, attributes, content, component,
      region]

theorem Info.faithful_nullable :
    Faithful (readNullable Info.read) fun info => (info.map Info.toJson).getD .null :=
  Info.faithful.nullable fun _ => ofFields_ne_null _

/-! ### Nodes -/

namespace Node

theorem toJsonAll_eq_map (nodes : List Node) : toJsonAll nodes = nodes.map toJson := by
  induction nodes with
  | nil => rfl
  | cons node nodes ih => rw [toJsonAll, ih, List.map_cons]

theorem textual_elementFields (head : Head) {children : List Json} (all : ∀ child ∈ children, Textual child) :
    ∀ field ∈ elementFields head children, Textual field.2 := by
  simp [elementFields, faithful_text.textual, faithful_text.map.textual, Info.faithful_nullable.textual,
    Textual.array all]

mutual
theorem textual_toJson : ∀ node : Node, Textual node.toJson
  | .text value => .object (by simp [faithful_text.textual])
  | .element head children =>
    .object (List.forall_mem_cons.mpr ⟨.text _, textual_elementFields head (textual_toJsonAll children)⟩)
theorem textual_toJsonAll : ∀ (nodes : List Node), ∀ json ∈ toJsonAll nodes, Textual json
  | [] => by simp [toJsonAll]
  | node :: rest => List.forall_mem_cons.mpr ⟨textual_toJson node, textual_toJsonAll rest⟩
end

/-- An element is read back if `child` reads back each of its children. -/
theorem readElement_fields {child : Bool → Json → Option Node} {head : Head} {children : List Node}
    (each : ∀ node ∈ children, ∀ held, child held node.toJson = some node) {room : Nat} (held : Bool)
    (fits : depth (.ofFields (elementFields head (toJsonAll children))) ≤ room) :
    readElement child room held (.ofFields (elementFields head (toJsonAll children))) = some { head, children } := by
  obtain ⟨r, record, holds⟩ := readRecord_ofFields ["name", "attrs", "children", "info"] rfl (by decide) held fits
  have tag := faithful_text.required (holds "name" _ rfl)
  have attrs := faithful_text.map.optional (holds "attrs" _ rfl) .empty
  have info := Info.faithful_nullable.optional (holds "info" _ rfl) none
  have list : r.optional "children" [] (readList fun _ => child) = some children := by
    have given := holds "children" _ rfl
    obtain ⟨less, room, -⟩ := depth_array_le given.fits
    rw [Record.optional, given.given, room, toJsonAll_eq_map]
    exact readList_map fun node member => each node member r.held
  simp [readElement, Record.nullable, record, tag, attrs, info, list]

/-- The children of an element have two containers less to lie in. -/
theorem depth_child {head : Head} {children : List Node} {room : Nat}
    (fits : depth (.ofFields (elementFields head (toJsonAll children))) ≤ room) :
    ∃ less, room = less + 2 ∧ ∀ node ∈ children, node.toJson.depth ≤ less := by
  obtain ⟨more, rfl, fields⟩ := depth_ofFields_le fits
  have list := fields ("children", .array (toJsonAll children)) (by simp [elementFields])
  obtain ⟨less, rfl, items⟩ := depth_array_le list
  refine ⟨less, rfl, fun node member => items _ ?_⟩
  rw [toJsonAll_eq_map]
  exact List.mem_map_of_mem member

theorem readWith_text (child : Bool → Json → Option Node) (value : String) {room : Nat} (held : Bool)
    (fits : (text value).toJson.depth ≤ room) : readWith child room held (text value).toJson = some (.text value) := by
  refine readTagged_ofFields held (by decide) (by simp) (textual_toJson (.text value)) fits fun within => ?_
  obtain ⟨r, record, holds⟩ := readRecord_ofFields ["value"] rfl (by decide) true within
  have value := faithful_text.required (holds "value" _ rfl)
  simp [readTextValue, record, value]

theorem readWith_element {child : Bool → Json → Option Node} {head : Head} {children : List Node}
    (each : ∀ node ∈ children, ∀ held, child held node.toJson = some node) {room : Nat} (held : Bool)
    (fits : (element head children).toJson.depth ≤ room) :
    readWith child room held (element head children).toJson = some (.element head children) := by
  refine readTagged_ofFields held (by decide) (by simp [elementFields]) (textual_toJson (.element head children)) fits
    fun within => ?_
  rw [if_pos rfl]
  exact congrArg (Option.map Element.toNode) (readElement_fields each true within)

mutual
/-- A node is read back where there is room for it. -/
theorem read_toJson : ∀ (node : Node) (room : Nat) (held : Bool), node.toJson.depth ≤ room →
    read room held node.toJson = some node
  | .text value, room, held, fits => by
    obtain ⟨less, rfl, -⟩ := depth_ofFields_le fits
    cases less with
    | zero => exact readWith_text _ value held fits
    | succ less => exact readWith_text _ value held fits
  | .element head children, room, held, fits => by
    obtain ⟨less, rfl, each⟩ := depth_child (Nat.le_trans (depth_ofFields_cons _ _) fits)
    exact readWith_element (fun node member held => read_toJsonAll children node member less held (each node member))
      held fits
theorem read_toJsonAll : ∀ (nodes : List Node), ∀ node ∈ nodes, ∀ (room : Nat) (held : Bool),
    node.toJson.depth ≤ room → read room held node.toJson = some node
  | [] => by simp
  | node :: rest => List.forall_mem_cons.mpr ⟨read_toJson node, read_toJsonAll rest⟩
end

end Node

theorem Element.faithful : Faithful Element.read Element.toJson where
  textual e := .object (Node.textual_elementFields e.head (Node.textual_toJsonAll e.children))
  back e room held fits := by
    obtain ⟨less, rfl, each⟩ := Node.depth_child fits
    exact Node.readElement_fields (fun node member held => Node.read_toJson node less held (each node member)) held fits

end TemplateWeaver
