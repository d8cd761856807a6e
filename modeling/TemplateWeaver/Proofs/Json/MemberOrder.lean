import Mathlib.Logic.Relation
import TemplateWeaver.Proofs.Json.Shape

/-!
The order of members, where it does not matter and where it does. A schema says which fields a record has and what
they are read as. Where a record is written as an object, its members can be moved and others added that nobody
knows (`Schema.Edit`). A reader is blind to such edits, anywhere in a value, if it reads records by their fields
(`Schema.Blind.record`, `Schema.Blind.tagged`) and the fields with readers that are blind themselves. In a map the
order is kept: each name has its first place and its last value (`readMap_eq_some`). What the fields of a record are
read as was read where they stand (`Record.required_of_nullable`, `Record.forall₂_items`).
-/
namespace TemplateWeaver

namespace Json

/-! ### Schemas -/

/-- What a value is read as. Records go by names of type `κ`. -/
inductive Shape (κ : Type) where
  | plain
  | list (item : Shape κ)
  | map (value : Shape κ)
  | record (kind : κ)
  /-- One of several records, told apart by a tag. -/
  | tagged (tag : String) (variants : List (String × κ))
  deriving DecidableEq

/-- Whether values of the shape are records, tagged or not. -/
def Shape.isRecord {κ : Type} : Shape κ → Bool
  | .record _ => true
  | .tagged _ _ => true
  | _ => false

/-- The fields of records, in their order. -/
structure Schema (κ : Type) where
  fields : κ → List (String × Shape κ)
  distinct (kind : κ) : ((fields kind).map Prod.fst).Nodup

namespace Schema

variable {κ : Type} (S : Schema κ)

def names (kind : κ) : List String :=
  (S.fields kind).map Prod.fst

/-- The fields of the record that a tagged value names. -/
def variantFields (tag : String) (variants : List (String × κ)) (json : Json) : List (String × Shape κ) :=
  ((splitTag? tag (variants.map Prod.fst) true json).bind fun named =>
    (variants.lookup named.1).map S.fields).getD []

/-- The fields that are known in a value. -/
def fieldsIn : Shape κ → Json → List (String × Shape κ)
  | .record kind, _ => S.fields kind
  | .tagged tag variants, json => (tag, .plain) :: S.variantFields tag variants json
  | _, _ => []

/-- One change somewhere in a value: the members of a record are put in another order, or a member that is not known
    there is added to them. -/
inductive Edit : Shape κ → Json → Json → Prop where
  | reorder {shape : Shape κ} {members others : List (Option String × Json)} (record : shape.isRecord = true)
      (moved : members.Perm others) : Edit shape (.object members) (.object others)
  | extra {shape : Shape κ} {members : List (Option String × Json)} {name : String} {value : Json}
      (record : shape.isRecord = true) (unknown : name ∉ (S.fieldsIn shape (.object members)).map Prod.fst)
      (textual : Textual value) : Edit shape (.object members) (.object ((some name, value) :: members))
  | field {shape inner : Shape κ} {before after : List (Option String × Json)} {name : String} {value other : Json}
      (known : (name, inner) ∈ S.fieldsIn shape (.object (before ++ (some name, value) :: after)))
      (edit : Edit inner value other) :
      Edit shape (.object (before ++ (some name, value) :: after)) (.object (before ++ (some name, other) :: after))
  | place {shape inner : Shape κ} {before after : List Json} {name : String} {value other : Json}
      (known : (S.fieldsIn shape (.array (before ++ value :: after)))[before.length]? = some (name, inner))
      (edit : Edit inner value other) :
      Edit shape (.array (before ++ value :: after)) (.array (before ++ other :: after))
  | item {shape : Shape κ} {before after : List Json} {value other : Json} (edit : Edit shape value other) :
      Edit (.list shape) (.array (before ++ value :: after)) (.array (before ++ other :: after))
  | entry {shape : Shape κ} {before after : List (Option String × Json)} {name : Option String} {value other : Json}
      (edit : Edit shape value other) :
      Edit (.map shape) (.object (before ++ (name, value) :: after)) (.object (before ++ (name, other) :: after))

/-- Any number of changes. -/
def Rearranged (shape : Shape κ) : Json → Json → Prop :=
  Relation.ReflTransGen (S.Edit shape)

end Schema

/-! ### What an edit keeps -/

theorem depthMembers_append (members others : List (Option String × Json)) :
    depthMembers (members ++ others) = max (depthMembers members) (depthMembers others) := by
  induction members with
  | nil => simp [depthMembers]
  | cons member members ih => rw [List.cons_append, depthMembers, depthMembers, ih, Nat.max_assoc]

theorem depthItems_append (items others : List Json) :
    depthItems (items ++ others) = max (depthItems items) (depthItems others) := by
  induction items with
  | nil => simp [depthItems]
  | cons item items ih => rw [List.cons_append, depthItems, depthItems, ih, Nat.max_assoc]

namespace Schema

variable {κ : Type} {S : Schema κ} {shape : Shape κ} {a b : Json}

theorem Edit.readable_eq (edit : S.Edit shape a b) : a.readable = b.readable := by
  induction edit with
  | reorder record moved =>
    simp only [readable, readableMembers_eq]
    exact moved.all_eq
  | extra record unknown textual => simp [readable, readableMembers, textual.readable]
  | field known edit ih => simp [readable, readableMembers_eq, ih]
  | place known edit ih => simp [readable, readableItems_eq, ih]
  | item edit ih => simp [readable, readableItems_eq, ih]
  | entry edit ih => simp [readable, readableMembers_eq, ih]

theorem Edit.depth_le (edit : S.Edit shape a b) : a.depth ≤ b.depth := by
  induction edit with
  | reorder record moved =>
    refine Nat.succ_le_succ (depthMembers_le_iff.mpr fun member inside => ?_)
    exact depthMembers_le_iff.mp (Nat.le_refl _) member (moved.mem_iff.mp inside)
  | extra record unknown textual => exact Nat.succ_le_succ (Nat.le_max_right ..)
  | field known edit ih | entry edit ih =>
    simp only [depth, depthMembers_append, depthMembers]
    omega
  | place known edit ih | item edit ih =>
    simp only [depth, depthItems_append, depthItems]
    omega

theorem Rearranged.depth_le (rearranged : S.Rearranged shape a b) : a.depth ≤ b.depth := by
  induction rearranged with
  | refl => exact Nat.le_refl _
  | tail _ edit ih => exact Nat.le_trans ih edit.depth_le

end Schema

/-! ### Fields by name -/

section
variable {β γ : Type}

theorem mapM_eq_ite (f : β → Option γ) (values : List β) :
    values.mapM f = if values.all fun a => (f a).isSome then some (values.filterMap f) else none := by
  induction values with
  | nil => rfl
  | cons a values ih =>
    rw [List.mapM_cons, ih]
    cases first : f a with
    | none => simp [first]
    | some c => by_cases later : values.all fun a => (f a).isSome <;> simp [first, later]

theorem rel_refl {R : β → β → Prop} (same : ∀ b, R b b) (x : Option β) : Option.Rel R x x := by
  cases x with
  | none => exact .none
  | some b => exact .some (same b)

/-- What is made of related results is the same if it does not tell them apart. -/
theorem bind_eq_of_rel {δ : Type} {R : β → γ → Prop} {x : Option β} {y : Option γ} {f : β → Option δ}
    {g : γ → Option δ} (related : Option.Rel R x y) (same : ∀ b c, R b c → f b = g c) : x.bind f = y.bind g := by
  cases related with
  | none => rfl
  | some holds => exact same _ _ holds

end

/-- A member as a field, if its name is one of those that are known. -/
def knownField (names : List String) (member : Option String × Json) : Option (String × Json) :=
  member.1.bind fun name => if names.contains name then some (name, member.2) else none

theorem namedFields?_eq (names : List String) (members : List (Option String × Json)) :
    namedFields? names members =
      if (members.all fun member => member.1.isSome) ∧ ((members.filterMap (knownField names)).map Prod.fst).Nodup then
        some (members.filterMap (knownField names))
      else none := by
  have known : (members.filterMap fun member => member.1.map (·, member.2)).filter
      (fun field => names.contains field.1) = members.filterMap (knownField names) := by
    rw [List.filter_filterMap]
    congr 1
    funext member
    rcases member with ⟨_ | name, value⟩
    · rfl
    · simp [knownField, Option.filter]
  rw [namedFields?, mapM_eq_ite]
  simp only [Option.isSome_map]
  by_cases all : members.all fun member => member.1.isSome
  · simp only [all, if_true, Option.bind_eq_bind, Option.bind_some, known, true_and]
  · simp [all]

/-! ### Records -/

namespace Schema

variable {κ : Type} {S : Schema κ} {kind : κ} {a b : Json}

/-- Fields whose values are the same but for an edit. -/
def AlikeFields (S : Schema κ) (kind : κ) (fields others : List (String × Json)) : Prop :=
  ∀ name inner, (name, inner) ∈ S.fields kind →
    Option.Rel (Relation.ReflGen (S.Edit inner)) (fields.lookup name) (others.lookup name)

theorem AlikeFields.of_lookup {fields others : List (String × Json)}
    (same : ∀ name, fields.lookup name = others.lookup name) : S.AlikeFields kind fields others := by
  intro name inner known
  rw [same name]
  exact rel_refl (fun _ => .refl) _

/-- The value of one field is edited. -/
theorem AlikeFields.of_edit {name : String} {inner : Shape κ} {value other : Json}
    (known : (name, inner) ∈ S.fields kind) (edit : S.Edit inner value other) (before after : List (String × Json)) :
    S.AlikeFields kind (before ++ (name, value) :: after) (before ++ (name, other) :: after) := by
  intro key shape wanted
  rw [List.lookup_append, List.lookup_append]
  cases before.lookup key with
  | some earlier => exact .some .refl
  | none =>
    rw [Option.none_or, Option.none_or, List.lookup_cons, List.lookup_cons]
    by_cases same : key = name
    · subst same
      have shapes := ((OrderedMap.lookup_eq_some_iff_mem (S.distinct kind)).mpr known).symm.trans
        ((OrderedMap.lookup_eq_some_iff_mem (S.distinct kind)).mpr wanted)
      obtain rfl := Option.some.inj shapes
      rw [beq_self_eq_true]
      exact .some (.single edit)
    · rw [beq_false_of_ne same]
      exact rel_refl (fun _ => .refl) _

theorem namedFields?_reorder (kind : κ) {members others : List (Option String × Json)} (moved : members.Perm others) :
    Option.Rel (S.AlikeFields kind) (namedFields? (S.names kind) members) (namedFields? (S.names kind) others) := by
  have fields := moved.filterMap (knownField (S.names kind))
  have distinct := (fields.map Prod.fst).nodup_iff
  simp only [namedFields?_eq, moved.all_eq, ← distinct]
  split
  · rename_i accepted
    exact .some (.of_lookup (OrderedMap.lookup_perm accepted.2 fields))
  · exact .none

theorem namedFields?_extra {name : String} (unknown : name ∉ S.names kind) (value : Json)
    (members : List (Option String × Json)) :
    Option.Rel (S.AlikeFields kind) (namedFields? (S.names kind) members)
      (namedFields? (S.names kind) ((some name, value) :: members)) := by
  have dropped : knownField (S.names kind) (some name, value) = none := by simp [knownField, unknown]
  have same : namedFields? (S.names kind) ((some name, value) :: members) = namedFields? (S.names kind) members := by
    rw [namedFields?_eq, namedFields?_eq, List.filterMap_cons_none dropped, List.all_cons]
    rfl
  rw [same]
  exact rel_refl (fun _ => .of_lookup fun _ => rfl) _

theorem namedFields?_field {name : String} {inner : Shape κ} {value other : Json}
    (known : (name, inner) ∈ S.fields kind) (edit : S.Edit inner value other)
    (before after : List (Option String × Json)) :
    Option.Rel (S.AlikeFields kind) (namedFields? (S.names kind) (before ++ (some name, value) :: after))
      (namedFields? (S.names kind) (before ++ (some name, other) :: after)) := by
  have kept (json : Json) : knownField (S.names kind) (some name, json) = some (name, json) := by
    have named : name ∈ S.names kind := List.mem_map_of_mem known
    simp [knownField, named]
  have alike := AlikeFields.of_edit known edit (before.filterMap (knownField (S.names kind)))
    (after.filterMap (knownField (S.names kind)))
  simp only [namedFields?_eq, List.filterMap_append, List.filterMap_cons_some (kept _), List.all_append, List.all_cons,
    List.map_append, List.map_cons]
  split
  · exact .some alike
  · exact .none

theorem positionalFields?_place {name : String} {inner : Shape κ} {value other : Json} {before : List Json}
    (known : (S.fields kind)[before.length]? = some (name, inner)) (edit : S.Edit inner value other)
    (after : List Json) :
    Option.Rel (S.AlikeFields kind) (positionalFields? (S.names kind) (before ++ value :: after))
      (positionalFields? (S.names kind) (before ++ other :: after)) := by
  obtain ⟨inside, there⟩ := List.getElem?_eq_some_iff.mp known
  -- The names fall into those of the items before, that of the item, and those of the items after.
  obtain ⟨front, back, split, long⟩ : ∃ front back, S.names kind = front ++ name :: back ∧
      front.length = before.length := by
    refine ⟨((S.fields kind).take before.length).map Prod.fst, ((S.fields kind).drop (before.length + 1)).map Prod.fst,
      ?_, ?_⟩
    · have cut := (List.take_append_drop before.length (S.fields kind)).symm
      rw [List.drop_eq_getElem_cons inside, there] at cut
      simpa [names] using congrArg (List.map Prod.fst) cut
    · rw [List.length_map, List.length_take]
      omega
  have zipped (json : Json) : (S.names kind).zip (before ++ json :: after) =
      front.zip before ++ (name, json) :: back.zip after := by
    rw [split, List.zip_append long, List.zip_cons_cons]
  simp only [positionalFields?, zipped, List.length_append, List.length_cons]
  split
  · exact .some (.of_edit (List.mem_of_getElem? known) edit _ _)
  · exact .none

/-- Records whose fields are the same but for an edit. -/
structure Alike (S : Schema κ) (kind : κ) (r s : Record) : Prop where
  room : r.room = s.room
  held : r.held = true
  heldToo : s.held = true
  fields : S.AlikeFields kind r.fields s.fields

/-- An edit of a record is an edit of one of its fields, or none at all. -/
theorem readRecord_edit (edit : S.Edit (.record kind) a b) (room : Nat) :
    Option.Rel (S.Alike kind) (readRecord (S.names kind) room true a) (readRecord (S.names kind) room true b) := by
  have lift {positional : Bool} {x y : Option (List (String × Json))} {room : Nat}
      (alike : Option.Rel (S.AlikeFields kind) x y) :
      Option.Rel (S.Alike kind) (x.map fun fields => { room, held := true, positional, fields })
        (y.map fun fields => { room, held := true, positional, fields }) := by
    cases alike with
    | none => exact .none
    | some alike => exact .some ⟨rfl, rfl, rfl, alike⟩
  cases room with
  | zero => cases edit <;> exact .none
  | succ room =>
    cases edit with
    | reorder _ moved => exact lift (namedFields?_reorder kind moved)
    | extra _ unknown _ => exact lift (namedFields?_extra unknown _ _)
    | field known edit => exact lift (namedFields?_field known edit _ _)
    | place known edit => exact lift (positionalFields?_place known edit _)

end Schema

/-! ### Tagged records -/

/-- The value of the member called `name`, if there is one and no other. -/
def tagMember? (name : String) (members : List (Option String × Json)) : Option Json :=
  match members.filter (fun member => member.1 == some name) with
  | [member] => some member.2
  | _ => none

theorem splitTag?_object (name : String) (tags : List String) (held : Bool) (members : List (Option String × Json)) :
    splitTag? name tags held (.object members) =
      ((tagMember? name members).bind (tag? tags held)).map
        (·, .object (members.filter fun member => member.1 != some name)) := by
  rw [splitTag?, tagMember?]
  split <;> simp_all

theorem tagMember?_perm (name : String) {members others : List (Option String × Json)} (moved : members.Perm others) :
    tagMember? name members = tagMember? name others := by
  have filtered := moved.filter fun member => member.1 == some name
  rw [tagMember?, tagMember?]
  match members.filter _, others.filter _, filtered, filtered.length_eq with
  | [], [], _, _ => rfl
  | [member], [other], same, _ => rw [List.singleton_perm_singleton.mp same]
  | _ :: _ :: _, _ :: _ :: _, _, _ => rfl

theorem tag?_mem {tags : List String} {held : Bool} {json : Json} {tag : String}
    (named : tag? tags held json = some tag) : tag ∈ tags ∧ tag? tags true json = some tag := by
  rw [tag?.eq_def] at named
  split at named
  · rename_i name
    split at named
    · rename_i known
      cases named
      exact ⟨List.contains_iff_mem.mp known, by simp_all [tag?]⟩
    · cases named
  · split at named
    · obtain ⟨place, value, found⟩ := Option.bind_eq_some_iff.mp named
      exact ⟨List.mem_of_getElem? found, by simp_all [tag?]⟩
    · cases named
  · cases named

namespace Schema

variable {κ : Type} {S : Schema κ} {tag : String} {variants : List (String × κ)} {a b : Json}

theorem not_edit_plain : ¬ S.Edit .plain a b := by
  intro edit
  cases edit with
  | reorder record => cases record
  | extra record => cases record
  | field known => cases known
  | place known => cases known

theorem splitTag?_held {tags : List String} {held : Bool} {json record : Json} {name : String}
    (split : splitTag? tag tags held json = some (name, record)) :
    name ∈ tags ∧ splitTag? tag tags true json = some (name, record) := by
  cases json with
  | object members =>
    rw [splitTag?_object] at split ⊢
    obtain ⟨_, found, same⟩ := Option.map_eq_some_iff.mp split
    cases same
    obtain ⟨value, given, named⟩ := Option.bind_eq_some_iff.mp found
    obtain ⟨known, whole⟩ := tag?_mem named
    exact ⟨known, by rw [given, Option.bind_some, whole]; rfl⟩
  | array items =>
    cases items with
    | nil => cases split
    | cons value items =>
      obtain ⟨_, named, same⟩ := Option.map_eq_some_iff.mp split
      cases same
      obtain ⟨known, whole⟩ := tag?_mem named
      exact ⟨known, by rw [splitTag?, whole]; rfl⟩
  | _ => cases split

/-- A value whose tag can be read is one of the variants. -/
theorem exists_variant {held : Bool} {json record : Json} {name : String}
    (split : splitTag? tag (variants.map Prod.fst) held json = some (name, record)) :
    ∃ kind, (name, kind) ∈ variants ∧ S.variantFields tag variants json = S.fields kind := by
  obtain ⟨known, whole⟩ := splitTag?_held split
  cases found : variants.lookup name with
  | none =>
    obtain ⟨variant, member, rfl⟩ := List.mem_map.mp known
    exact absurd rfl (bne_iff_ne.mp (List.lookup_eq_none_iff.mp found variant member))
  | some kind =>
    obtain ⟨front, back, rfl, -⟩ := List.lookup_eq_some_iff.mp found
    exact ⟨kind, by simp, by rw [variantFields, whole, Option.bind_some, found]; rfl⟩

theorem mem_variantFields {json : Json} {field : String × Shape κ} (known : field ∈ S.variantFields tag variants json) :
    ∃ variant ∈ variants, field ∈ S.fields variant.2 := by
  cases split : splitTag? tag (variants.map Prod.fst) true json with
  | none =>
    rw [variantFields, split] at known
    cases known
  | some named =>
    obtain ⟨kind, member, same⟩ := exists_variant (S := S) split
    exact ⟨_, member, same ▸ known⟩

/-- The same variant, with an edit in what remains without the tag. -/
def AlikeVariants (S : Schema κ) (variants : List (String × κ)) (named other : String × Json) : Prop :=
  named.1 = other.1 ∧ ∃ kind, (named.1, kind) ∈ variants ∧ S.Edit (.record kind) named.2 other.2

theorem splitTag?_objects {members others : List (Option String × Json)} (held : Bool)
    (same : tagMember? tag members = tagMember? tag others)
    (rest : ∀ variant ∈ variants, S.variantFields tag variants (.object members) = S.fields variant.2 →
      S.Edit (.record variant.2) (.object (members.filter fun member => member.1 != some tag))
        (.object (others.filter fun member => member.1 != some tag))) :
    Option.Rel (S.AlikeVariants variants) (splitTag? tag (variants.map Prod.fst) held (.object members))
      (splitTag? tag (variants.map Prod.fst) held (.object others)) := by
  have split := splitTag?_object tag (variants.map Prod.fst) held members
  rw [splitTag?_object tag _ held others, ← same]
  cases named : (tagMember? tag members).bind (tag? (variants.map Prod.fst) held) with
  | none =>
    rw [split, named]
    exact .none
  | some name =>
    rw [named] at split
    obtain ⟨kind, member, fields⟩ := exists_variant (S := S) split
    rw [split]
    exact .some ⟨rfl, kind, member, rest _ member fields⟩

theorem splitTag?_arrays {first : Json} {items others : List Json} (held : Bool)
    (rest : ∀ variant ∈ variants, S.variantFields tag variants (.array (first :: items)) = S.fields variant.2 →
      S.Edit (.record variant.2) (.array items) (.array others)) :
    Option.Rel (S.AlikeVariants variants) (splitTag? tag (variants.map Prod.fst) held (.array (first :: items)))
      (splitTag? tag (variants.map Prod.fst) held (.array (first :: others))) := by
  have split (items : List Json) : splitTag? tag (variants.map Prod.fst) held (.array (first :: items))
      = (tag? (variants.map Prod.fst) held first).map (·, .array items) := rfl
  cases named : tag? (variants.map Prod.fst) held first with
  | none =>
    rw [split, split, named]
    exact .none
  | some name =>
    obtain ⟨kind, member, fields⟩ := exists_variant (S := S) ((split items).trans (congrArg _ named))
    rw [split, split, named]
    exact .some ⟨rfl, kind, member, rest _ member fields⟩

/-- An edit of a tagged record is one of the record that the tag names. -/
theorem splitTag?_edit (apart : ∀ variant ∈ variants, tag ∉ S.names variant.2)
    (edit : S.Edit (.tagged tag variants) a b) (held : Bool) :
    Option.Rel (S.AlikeVariants variants) (splitTag? tag (variants.map Prod.fst) held a)
      (splitTag? tag (variants.map Prod.fst) held b) := by
  cases edit with
  | reorder _ moved =>
    exact splitTag?_objects held (tagMember?_perm tag moved) fun _ _ _ => .reorder rfl (moved.filter _)
  | @extra _ members name value _ unknown textual =>
    obtain ⟨other, unknown⟩ := not_or.mp (mt List.mem_cons.mpr unknown)
    refine splitTag?_objects held ?_ fun variant _ fields => ?_
    · rw [tagMember?, tagMember?, List.filter_cons_of_neg (by simpa using other)]
    · rw [List.filter_cons_of_pos (by simpa using other)]
      rw [fields] at unknown
      exact .extra rfl unknown textual
  | @field _ inner before after name value other known edit =>
    rcases List.mem_cons.mp known with plain | known
    · cases plain
      exact absurd edit not_edit_plain
    · obtain ⟨variant, member, field⟩ := mem_variantFields known
      have other : name ≠ tag := by
        rintro rfl
        exact apart variant member (List.mem_map_of_mem field)
      refine splitTag?_objects held ?_ fun variant _ fields => ?_
      · simp [tagMember?, other]
      · simp only [List.filter_append]
        rw [List.filter_cons_of_pos (by simpa using other), List.filter_cons_of_pos (by simpa using other)]
        rw [fields] at known
        exact .field known edit
  | @place _ inner before after name value other known edit =>
    cases before with
    | nil =>
      cases known
      exact absurd edit not_edit_plain
    | cons first before =>
      refine splitTag?_arrays held fun variant _ fields => ?_
      have there : (S.fields variant.2)[before.length]? = some (name, inner) := fields ▸ known
      exact .place there edit

/-! ### Blind readers -/

section
variable {α : Type} {shape : Shape κ} {kind : κ} {read : Reader α}

/-- `read` does not see edits of values that have been taken in whole. -/
def Blind (S : Schema κ) (shape : Shape κ) (read : Reader α) : Prop :=
  ∀ (room : Nat) {a b : Json}, S.Edit shape a b → read room true a = read room true b

theorem Blind.plain (read : Reader α) : S.Blind .plain read :=
  fun _ _ _ edit => absurd edit not_edit_plain

theorem Blind.nullable (blind : S.Blind shape read) : S.Blind shape (readNullable read) := by
  intro room a b edit
  have same := blind room edit
  cases edit <;> exact congrArg (Option.map some) same

/-- In a list or a map an edit is one of an item. -/
theorem Edit.inside (edit : S.Edit shape a b) (container : shape.isRecord = false) :
    (∃ inner before after value other, shape = .list inner ∧ a = .array (before ++ value :: after) ∧
        b = .array (before ++ other :: after) ∧ S.Edit inner value other) ∨
      ∃ inner before after name value other, shape = .map inner ∧ a = .object (before ++ (name, value) :: after) ∧
        b = .object (before ++ (name, other) :: after) ∧ S.Edit inner value other := by
  have fieldless (json : Json) : S.fieldsIn shape json = [] := by
    cases shape with
    | record | tagged => cases container
    | _ => rfl
  cases edit with
  | reorder record | extra record => cases container.symm.trans record
  | field known =>
    rw [fieldless] at known
    cases known
  | place known =>
    rw [fieldless] at known
    cases known
  | item edit => exact .inl ⟨_, _, _, _, _, rfl, rfl, rfl, edit⟩
  | entry edit => exact .inr ⟨_, _, _, _, _, _, rfl, rfl, rfl, edit⟩

theorem Blind.list (blind : S.Blind shape read) : S.Blind (.list shape) (readList read) := by
  intro room a b edit
  obtain ⟨inner, before, after, value, other, same, rfl, rfl, edit⟩ | ⟨_, _, _, _, _, _, same, -⟩ := edit.inside rfl
  · cases same
    cases room with
    | zero => rfl
    | succ room => simp only [readList, List.mapM_append, List.mapM_cons, blind room edit]
  · cases same

theorem Blind.map (blind : S.Blind shape read) : S.Blind (.map shape) (readMap read) := by
  intro room a b edit
  obtain ⟨_, _, _, _, _, same, -⟩ | ⟨inner, before, after, name, value, other, same, rfl, rfl, edit⟩ := edit.inside rfl
  · cases same
  · cases same
    cases room with
    | zero => rfl
    | succ room => simp only [readMap, List.mapM_append, List.mapM_cons, blind room edit]

section
variable {r s : Record}

theorem Alike.read_eq (alike : S.Alike kind r s) (blind : S.Blind shape read) {value other : Json}
    (same : Relation.ReflGen (S.Edit shape) value other) : read r.room r.held value = read s.room s.held other := by
  rw [alike.room, alike.held, alike.heldToo]
  cases same with
  | refl => rfl
  | single edit => exact blind s.room edit

theorem Alike.required (alike : S.Alike kind r s) (name : String) (known : (name, shape) ∈ S.fields kind)
    (blind : S.Blind shape read) : r.required name read = s.required name read :=
  bind_eq_of_rel (alike.fields name shape known) fun _ _ same => alike.read_eq blind same

theorem Alike.optional (alike : S.Alike kind r s) (name : String) (known : (name, shape) ∈ S.fields kind)
    (blind : S.Blind shape read) (default : α) : r.optional name default read = s.optional name default read := by
  have given := alike.fields name shape known
  rw [Record.optional, Record.optional]
  generalize r.fields.lookup name = first at given
  generalize s.fields.lookup name = second at given
  cases given with
  | none => rfl
  | some same => exact alike.read_eq blind same

theorem Alike.nullable (alike : S.Alike kind r s) (name : String) (known : (name, shape) ∈ S.fields kind)
    (blind : S.Blind shape read) : r.nullable name read = s.nullable name read :=
  alike.optional name known blind.nullable none

end

/-- A record is read by its fields. -/
theorem Blind.record {f : Record → Option α} (same : ∀ r s, S.Alike kind r s → f r = f s) :
    S.Blind (.record kind) fun room held json => (readRecord (S.names kind) room held json).bind f :=
  fun room _ _ edit => bind_eq_of_rel (readRecord_edit edit room) same

theorem readTagged_edit {read : String → Reader α} (apart : ∀ variant ∈ variants, tag ∉ S.names variant.2)
    (each : ∀ variant ∈ variants, S.Blind (.record variant.2) (read variant.1))
    (edit : S.Edit (.tagged tag variants) a b) {room : Nat} {held : Bool}
    (whole : (held || a.fits room) = (held || b.fits room)) :
    readTagged tag (variants.map Prod.fst) read room held a =
      readTagged tag (variants.map Prod.fst) read room held b := by
  rw [readTagged, readTagged, whole]
  split
  · refine bind_eq_of_rel (splitTag?_edit apart edit held) ?_
    rintro ⟨name, record⟩ ⟨_, other⟩ ⟨rfl, kind, member, edit⟩
    exact each _ member room edit
  · rfl

theorem Blind.tagged {read : String → Reader α} (apart : ∀ variant ∈ variants, tag ∉ S.names variant.2)
    (each : ∀ variant ∈ variants, S.Blind (.record variant.2) (read variant.1)) :
    S.Blind (.tagged tag variants) (readTagged tag (variants.map Prod.fst) read) :=
  fun _ _ _ edit => readTagged_edit apart each edit rfl

/-- A whole text is read the same after any number of edits, unless they nest it too deep. -/
theorem Rearranged.readTagged_eq {read : String → Reader α} (rearranged : S.Rearranged (.tagged tag variants) a b)
    (apart : ∀ variant ∈ variants, tag ∉ S.names variant.2)
    (each : ∀ variant ∈ variants, S.Blind (.record variant.2) (read variant.1)) {room : Nat}
    (shallow : a.depth ≤ room → b.depth ≤ room) :
    readTagged tag (variants.map Prod.fst) read room false b =
      readTagged tag (variants.map Prod.fst) read room false a := by
  by_cases deep : room < a.depth
  · rw [readTagged_of_deep deep, readTagged_of_deep (Nat.lt_of_lt_of_le deep rearranged.depth_le)]
  · have within := shallow (Nat.le_of_not_lt deep)
    clear deep shallow
    induction rearranged with
    | refl => rfl
    | tail earlier edit ih =>
      have fewer := Nat.le_trans edit.depth_le within
      rw [← ih fewer]
      refine (readTagged_edit apart each edit ?_).symm
      simp [fits, within, fewer, edit.readable_eq]

end

end Schema

/-! ### Maps -/

section
variable {α : Type}

/-- `m` is what `read` makes of a map: the names in the order of their first members, each with the value of its
    last. -/
structure MapOf (read : Json → Option α) (members : List (Option String × Json)) (m : OrderedMap α) : Prop where
  each : ∀ member ∈ members, member.1.isSome = true ∧ (read member.2).isSome = true
  keys : m.keys = (members.filterMap Prod.fst).eraseDups
  values (key : String) : m.get? key = (members.reverse.lookup (some key)).bind read

/-- The field of a record holds a map. One that was left out stands for the empty map. -/
def Record.HoldsMap (r : Record) (name : String) (read : Reader α) (m : OrderedMap α) : Prop :=
  (r.fields.lookup name = none ∧ m = .empty) ∨
    ∃ room members, r.room = room + 1 ∧ r.fields.lookup name = some (.object members) ∧
      MapOf (read room r.held) members m

/-- A member of a map as a pair, if its value can be read. -/
def pairOf? (read : Json → Option α) (member : Option String × Json) : Option (String × α) :=
  member.1.bind fun name => (read member.2).map (name, ·)

theorem isSome_pairOf? {read : Json → Option α} {member : Option String × Json} :
    (pairOf? read member).isSome = true ↔ member.1.isSome = true ∧ (read member.2).isSome = true := by
  rcases member with ⟨_ | name, json⟩ <;> simp [pairOf?]

theorem map_pairOf? {read : Json → Option α} {member : Option String × Json}
    (made : (pairOf? read member).isSome = true) : (pairOf? read member).map Prod.fst = member.1 := by
  obtain ⟨named, given⟩ := isSome_pairOf?.mp made
  obtain ⟨name, named⟩ := Option.isSome_iff_exists.mp named
  obtain ⟨value, given⟩ := Option.isSome_iff_exists.mp given
  simp [pairOf?, named, given]

theorem lookup_filterMap {read : Json → Option α} {members : List (Option String × Json)}
    (each : ∀ member ∈ members, (pairOf? read member).isSome = true) (key : String) :
    (members.filterMap (pairOf? read)).lookup key = (members.lookup (some key)).bind read := by
  induction members with
  | nil => rfl
  | cons member members ih =>
    obtain ⟨first, later⟩ := List.forall_mem_cons.mp each
    obtain ⟨entry, made⟩ := Option.isSome_iff_exists.mp first
    obtain ⟨name, named, given⟩ := Option.bind_eq_some_iff.mp made
    obtain ⟨value, found, rfl⟩ := Option.map_eq_some_iff.mp given
    obtain ⟨_, json⟩ := member
    obtain rfl : _ = some name := named
    rw [List.filterMap_cons_some made, List.lookup_cons, List.lookup_cons, ih later]
    by_cases same : key = name
    · subst same
      simpa using found.symm
    · rw [beq_false_of_ne same, beq_false_of_ne fun equal => same (Option.some.inj equal)]

/-- A map is read in the order of its members. -/
theorem readMap_eq_some {read : Reader α} {room : Nat} {held : Bool} {json : Json} {m : OrderedMap α}
    (found : readMap read room held json = some m) :
    ∃ less members, room = less + 1 ∧ json = .object members ∧ MapOf (read less held) members m := by
  rw [readMap.eq_def] at found
  split at found
  · rename_i less members
    obtain ⟨pairs, taken, rfl⟩ := Option.map_eq_some_iff.mp found
    have entries : members.mapM (pairOf? (read less held)) = some pairs := by
      rw [← taken]
      congr 1
      funext member
      rcases member with ⟨_ | name, json⟩
      · rfl
      · cases value : read less held json <;> simp [pairOf?, value]
    rw [mapM_eq_ite] at entries
    split at entries
    · rename_i all
      cases entries
      have each := List.all_eq_true.mp all
      refine ⟨less, members, rfl, rfl, fun member inside => isSome_pairOf?.mp (each member inside), ?_, fun key => ?_⟩
      · rw [OrderedMap.keys_ofList, List.map_filterMap]
        exact congrArg List.eraseDups (List.filterMap_congr fun member inside => map_pairOf? (each member inside))
      · have reversed : ∀ member ∈ members.reverse, (pairOf? (read less held) member).isSome = true :=
          fun member inside => each member (List.mem_reverse.mp inside)
        rw [OrderedMap.get?_ofList, ← List.filterMap_reverse, lookup_filterMap reversed]
    · cases entries
  · cases found

theorem Record.holdsMap_of_optional {r : Record} {name : String} {read : Reader α} {m : OrderedMap α}
    (found : r.optional name .empty (readMap read) = some m) : r.HoldsMap name read m := by
  rw [Record.optional] at found
  split at found
  · rename_i json given
    obtain ⟨room, members, room_eq, rfl, map⟩ := readMap_eq_some found
    exact .inr ⟨room, members, room_eq, given, map⟩
  · rename_i missing
    exact .inl ⟨missing, (Option.some.inj found).symm⟩

end

/-! ### Where fields are read -/

section
variable {α β : Type}

theorem forall₂_of_mapM {f : β → Option α} {items : List β} {values : List α} (found : items.mapM f = some values) :
    List.Forall₂ (fun item value => f item = some value) items values := by
  induction items generalizing values with
  | nil =>
    cases found
    exact .nil
  | cons item items ih =>
    rw [List.mapM_cons] at found
    obtain ⟨value, first, found⟩ := Option.bind_eq_some_iff.mp found
    obtain ⟨others, later, found⟩ := Option.bind_eq_some_iff.mp found
    cases found
    exact .cons first (ih later)

theorem of_readRecord {names : List String} {room : Nat} {held : Bool} {json : Json} {r : Record}
    (found : readRecord names room held json = some r) : room = r.room + 1 ∧ held = r.held := by
  rw [readRecord.eq_def] at found
  split at found
  · obtain ⟨fields, -, rfl⟩ := Option.map_eq_some_iff.mp found
    exact ⟨rfl, rfl⟩
  · obtain ⟨fields, -, rfl⟩ := Option.map_eq_some_iff.mp found
    exact ⟨rfl, rfl⟩
  · cases found

theorem of_readTagged {name : String} {tags : List String} {read : String → Reader α} {room : Nat} {held : Bool}
    {json : Json} {value : α} (found : readTagged name tags read room held json = some value) :
    ∃ tag record, tag ∈ tags ∧ splitTag? name tags held json = some (tag, record) ∧
      read tag room true record = some value := by
  rw [readTagged] at found
  split at found
  · obtain ⟨⟨tag, record⟩, split, found⟩ := Option.bind_eq_some_iff.mp found
    exact ⟨tag, record, (Schema.splitTag?_held split).1, split, found⟩
  · cases found

/-- The items of a field that is a list. One that was left out has none. -/
def Record.items (r : Record) (name : String) : List Json :=
  match r.fields.lookup name with
  | some (.array items) => items
  | _ => []

theorem Record.forall₂_items {r : Record} {name : String} {read : Reader α} {values : List α}
    (found : r.optional name [] (readList read) = some values) :
    List.Forall₂ (fun item value => read (r.room - 1) r.held item = some value) (r.items name) values := by
  rw [Record.optional] at found
  split at found
  · rename_i json given
    rw [readList.eq_def] at found
    split at found
    · rename_i room items room_eq
      rw [Record.items, given, room_eq]
      exact forall₂_of_mapM found
    · cases found
  · rename_i missing
    cases found
    rw [Record.items, missing]
    exact .nil

theorem Record.required_of_nullable {r : Record} {name : String} {read : Reader α} {value : α}
    (found : r.nullable name read = some (some value)) : r.required name read = some value := by
  rw [Record.nullable, Record.optional] at found
  split at found
  · rename_i json given
    rw [readNullable.eq_def] at found
    split at found
    · cases found
    · obtain ⟨value, made, same⟩ := Option.map_eq_some_iff.mp found
      cases same
      rw [Record.required, given]
      exact made
  · cases found

end

end Json

end TemplateWeaver
