import TemplateWeaver.Markup.Codec
import TemplateWeaver.Proofs.Json.RoundTrip
import TemplateWeaver.Proofs.OrderedMap

/-!
Readers that undo writers. A reader is faithful to a writer when it reads back every value that was
written, if it has room for the containers in it (`Faithful`). Texts, flags, lists and maps are read
faithfully, a record is read field by field (`readRecord_ofFields`, `Record.Holds`), and a tagged
record is read as the record its tag names (`readTagged_ofFields`).
-/
namespace TemplateWeaver

namespace Json

/-! ### Nesting and literals -/

theorem depthItems_le {items : List Json} {room : Nat} :
    depthItems items ≤ room ↔ ∀ item ∈ items, item.depth ≤ room := by
  induction items with
  | nil => simp [depthItems]
  | cons item items ih => rw [depthItems, Nat.max_le, ih, List.forall_mem_cons]

theorem depthMembers_le_iff {members : List (Option String × Json)} {room : Nat} :
    depthMembers members ≤ room ↔ ∀ member ∈ members, member.2.depth ≤ room := by
  induction members with
  | nil => simp [depthMembers]
  | cons member members ih => rw [depthMembers, Nat.max_le, ih, List.forall_mem_cons]

theorem depthMembers_le {fields : List (String × Json)} {room : Nat} :
    depthMembers (membersOf fields) ≤ room ↔ ∀ field ∈ fields, field.2.depth ≤ room := by
  rw [depthMembers_le_iff, membersOf, List.forall_mem_map]

/-- A list takes one container and the rest of the room for its items. -/
theorem depth_array_le {items : List Json} {room : Nat} (fits : depth (.array items) ≤ room) :
    ∃ less, room = less + 1 ∧ ∀ item ∈ items, item.depth ≤ less := by
  rw [depth] at fits
  exact ⟨room - 1, by omega, depthItems_le.mp (by omega)⟩

/-- An object takes one container and the rest of the room for its fields. -/
theorem depth_ofFields_le {fields : List (String × Json)} {room : Nat} (fits : depth (.ofFields fields) ≤ room) :
    ∃ less, room = less + 1 ∧ ∀ field ∈ fields, field.2.depth ≤ less := by
  change depthMembers (membersOf fields) + 1 ≤ room at fits
  exact ⟨room - 1, by omega, depthMembers_le.mp (by omega)⟩

theorem depth_ofFields_cons (field : String × Json) (fields : List (String × Json)) :
    depth (.ofFields fields) ≤ depth (.ofFields (field :: fields)) :=
  Nat.succ_le_succ (Nat.le_max_right ..)

theorem readableMembers_eq (members : List (Option String × Json)) :
    readableMembers members = members.all fun member => member.1.isSome && member.2.readable := by
  induction members with
  | nil => rfl
  | cons member members ih => rw [readableMembers, ih, List.all_cons]

theorem readableItems_eq (items : List Json) : readableItems items = items.all readable := by
  induction items with
  | nil => rfl
  | cons item items ih => rw [readableItems, ih, List.all_cons]

theorem Textual.readable {json : Json} (textual : Textual json) : json.readable = true := by
  induction textual with
  | null => rfl
  | bool value => rfl
  | text s => rfl
  | array _ ih =>
    rw [Json.readable, readableItems_eq, List.all_eq_true]
    exact ih
  | object _ ih =>
    rw [ofFields, Json.readable, readableMembers_eq, List.all_eq_true]
    refine List.forall_mem_map.mpr fun field member => ?_
    rw [ih field member]
    rfl

/-! ### Faithful readers -/

variable {α : Type}

/-- `read` reads back what `write` wrote, wherever there is room for it. -/
structure Faithful (read : Reader α) (write : α → Json) : Prop where
  textual (a : α) : Textual (write a)
  back (a : α) {room : Nat} (held : Bool) (fits : (write a).depth ≤ room) : read room held (write a) = some a

theorem faithful_text : Faithful readText ofString where
  textual s := .text s
  back _ _ _ _ := rfl

theorem faithful_flag : Faithful readFlag .bool where
  textual value := .bool value
  back _ _ _ _ := rfl

theorem mapM_eq_some {β : Type} {f : β → Option α} {g : α → β} {values : List α}
    (each : ∀ a ∈ values, f (g a) = some a) : (values.map g).mapM f = some values := by
  induction values with
  | nil => rfl
  | cons a values ih =>
    obtain ⟨first, others⟩ := List.forall_mem_cons.mp each
    simp [List.mapM_cons, first, ih others]

theorem readList_map {read : Reader α} {write : α → Json} {values : List α} {room : Nat} {held : Bool}
    (each : ∀ a ∈ values, read room held (write a) = some a) :
    readList read (room + 1) held (.array (values.map write)) = some values :=
  mapM_eq_some each

theorem Faithful.list {read : Reader α} {write : α → Json} (faithful : Faithful read write) :
    Faithful (readList read) fun values => .array (values.map write) where
  textual values := .array (List.forall_mem_map.mpr fun a _ => faithful.textual a)
  back values room held fits := by
    obtain ⟨less, rfl, each⟩ := depth_array_le fits
    exact readList_map fun a member => faithful.back a held (each _ (List.mem_map_of_mem member))

theorem Faithful.map {read : Reader α} {write : α → Json} (faithful : Faithful read write) :
    Faithful (readMap read) (mapJson write) where
  textual m := .object (List.forall_mem_map.mpr fun entry _ => faithful.textual entry.2)
  back m room held fits := by
    obtain ⟨less, rfl, each⟩ := depth_ofFields_le fits
    have members : (membersOf (m.entries.map fun entry => (entry.1, write entry.2))).mapM
        (fun (member : Option String × Json) => do return (← member.1, ← read less held member.2)) =
          some m.entries := by
      rw [membersOf, List.map_map]
      refine mapM_eq_some fun entry member => ?_
      have value := faithful.back entry.2 held (each _ (List.mem_map_of_mem member))
      simp [value]
    refine (congrArg (Option.map OrderedMap.ofList) members).trans ?_
    rw [Option.map_some, OrderedMap.ofList_entries]

theorem Faithful.nullable {read : Reader α} {write : α → Json} (faithful : Faithful read write)
    (given : ∀ a, write a ≠ .null) : Faithful (readNullable read) fun value => (value.map write).getD .null where
  textual value := by
    cases value with
    | none => exact .null
    | some a => exact faithful.textual a
  back value room held fits := by
    cases value with
    | none => rfl
    | some a =>
      have read := faithful.back a held fits
      simp [readNullable, given a, read]

/-! ### Records -/

/-- A field was given, and there is room for its value. -/
structure Record.Holds (r : Record) (name : String) (json : Json) : Prop where
  given : r.fields.lookup name = some json
  fits : json.depth ≤ r.room

section

variable {r : Record} {name : String} {read : Reader α} {write : α → Json} {a : α}

theorem Faithful.required (faithful : Faithful read write) (holds : r.Holds name (write a)) :
    r.required name read = some a := by
  rw [Record.required, holds.given, Option.bind_some, faithful.back a r.held holds.fits]

theorem Faithful.optional (faithful : Faithful read write) (holds : r.Holds name (write a)) (default : α) :
    r.optional name default read = some a := by
  rw [Record.optional, holds.given]
  exact faithful.back a r.held holds.fits

end

/-- A record whose fields are all given by name is read with each of them. -/
theorem readRecord_ofFields (names : List String) {fields : List (String × Json)} (named : fields.map Prod.fst = names)
    (distinct : names.Nodup) {room : Nat} (held : Bool) (fits : depth (.ofFields fields) ≤ room) :
    ∃ r : Record, readRecord names room held (.ofFields fields) = some r ∧
      ∀ name json, fields.lookup name = some json → r.Holds name json := by
  obtain ⟨less, rfl, each⟩ := depth_ofFields_le fits
  have all : namedFields? names (membersOf fields) = some fields := by
    have taken : (membersOf fields).mapM (fun member => member.1.map (·, member.2)) = some fields :=
      mapM_eq_some fun field _ => rfl
    have known : fields.filter (fun field => names.contains field.1) = fields := by
      refine List.filter_eq_self.mpr fun field member => ?_
      rw [List.contains_iff_mem, ← named]
      exact List.mem_map_of_mem member
    simp only [namedFields?, taken, Option.bind_eq_bind, Option.bind_some, known, named, if_pos distinct]
  refine ⟨{ room := less, held, positional := false, fields }, congrArg (Option.map _) all, ?_⟩
  intro name json found
  obtain ⟨before, after, split, -⟩ := List.lookup_eq_some_iff.mp found
  exact ⟨found, each (name, json) (by simp [split])⟩

/-! ### Tagged records -/

theorem splitTag?_ofFields {name tag : String} {tags : List String} {fields : List (String × Json)}
    (known : tag ∈ tags) (apart : name ∉ fields.map Prod.fst) (held : Bool) :
    splitTag? name tags held (.ofFields ((name, .ofString tag) :: fields)) = some (tag, .ofFields fields) := by
  have others : ∀ member ∈ membersOf fields, member.1 ≠ some name := by
    intro member given same
    obtain ⟨field, present, rfl⟩ := List.mem_map.mp given
    exact apart (Option.some.inj same ▸ List.mem_map_of_mem present)
  have one : (membersOf ((name, .ofString tag) :: fields)).filter (fun member => member.1 == some name) =
      [(some name, .ofString tag)] := by
    simpa [membersOf] using others
  have rest : (membersOf ((name, .ofString tag) :: fields)).filter (fun member => member.1 != some name) =
      membersOf fields := by
    simpa [membersOf] using others
  have named : tag? tags held (.ofString tag) = some tag := by
    simp [tag?, ofString, known]
  change splitTag? name tags held (.object (membersOf ((name, .ofString tag) :: fields))) = _
  rw [splitTag?, one]
  simp only [named, rest, Option.map_some]
  rfl

/-- A tagged record is read as the record that its tag names, with no less room. -/
theorem readTagged_ofFields {name tag : String} {tags : List String} {fields : List (String × Json)}
    {read : String → Reader α} {room : Nat} {a : α} (held : Bool) (known : tag ∈ tags)
    (apart : name ∉ fields.map Prod.fst) (textual : Textual (.ofFields ((name, .ofString tag) :: fields)))
    (fits : depth (.ofFields ((name, .ofString tag) :: fields)) ≤ room)
    (record : depth (.ofFields fields) ≤ room → read tag room true (.ofFields fields) = some a) :
    readTagged name tags read room held (.ofFields ((name, .ofString tag) :: fields)) = some a := by
  have whole : Json.fits room (.ofFields ((name, .ofString tag) :: fields)) = true := by
    simp [Json.fits, fits, textual.readable]
  have within := record (Nat.le_trans (depth_ofFields_cons _ _) fits)
  simp [readTagged, whole, splitTag?_ofFields known apart, within]

/-- A tagged value that nests too deep is refused, whatever it holds. -/
theorem readTagged_of_deep {name : String} {tags : List String} {read : String → Reader α} {room : Nat} {json : Json}
    (deep : room < json.depth) : readTagged name tags read room false json = none := by
  have unfit : Json.fits room json = false := by simp [Json.fits, Nat.not_le_of_lt deep]
  simp [readTagged, unfit]

/-! ### Whole texts -/

theorem Faithful.decode?_render {read : Reader α} {write : α → Json} (faithful : Faithful read write) {a : α}
    (fits : (write a).depth ≤ nestingLimit) : decode? read (render (write a)) = some a := by
  rw [decode?, (faithful.textual a).parse?_render, Option.bind_some, faithful.back a false fits]

end Json

end TemplateWeaver
