import TemplateWeaver.Weave.Template

/-!
The code of a template by value. Weaving fills buffers that regions have embedded before; here the
code of the children is there first, and regions have it in its place (`Node.emit`). Each line
remembers the element and the section that it was written for. The code of a feature is the same
whatever is embedded in it (`Feature.code_map`).
-/
namespace TemplateWeaver

open Code (Block BufferId Segment)

variable {β γ : Type}

/-! ### Code that remembers its origin -/

/-- Where a segment comes from: the element, as the child numbers that lead to it from the root, the
    section that it was written to, and its place among what the element wrote there. -/
structure Origin where
  path : List Nat
  hook : Section
  place : Nat
  deriving DecidableEq, Repr

inductive Traced where
  | line (origin : Origin) (text : String)
  | nested (body : List Traced)

namespace Traced

mutual
/-- The code alone. -/
def forget : Traced → Block
  | .line _ text => .line text
  | .nested body => .nested (forgetAll body)
def forgetAll : List Traced → List Block
  | [] => []
  | traced :: rest => forget traced :: forgetAll rest
end

@[simp] theorem forgetAll_append (front back : List Traced) :
    forgetAll (front ++ back) = forgetAll front ++ forgetAll back := by
  induction front with
  | nil => rfl
  | cons traced rest ih => simp only [List.cons_append, forgetAll, ih]

/-- A segment with its origin. -/
def ofSegment (origin : Origin) : Segment (List Traced) → Traced
  | .line text => .line origin text
  | .embed body => .nested body

/-- The segments that an element wrote to a section, from a place on. -/
def ofSegments (path : List Nat) (hook : Section) (place : Nat) :
    List (Segment (List Traced)) → List Traced
  | [] => []
  | segment :: rest =>
    ofSegment { path, hook, place } segment :: ofSegments path hook (place + 1) rest

theorem forgetAll_ofSegments (path : List Nat) (hook : Section) (place : Nat)
    (segments : List (Segment (List Traced))) :
    forgetAll (ofSegments path hook place segments) = Code.expandWith forgetAll segments := by
  induction segments generalizing place with
  | nil => rfl
  | cons segment rest ih =>
    cases segment with
    | line text => simp only [ofSegments, ofSegment, forgetAll, forget, ih, Code.expandWith_line]
    | embed body => simp only [ofSegments, ofSegment, forgetAll, forget, ih, Code.expandWith_embed]

end Traced

/-! ### Features of an element -/

namespace Head

/-- The region of an element, with the field of the element. -/
def region? (h : Head) : Option (String × Region) := do
  let info ← h.info
  return (← info.field, ← info.region)

/-- What an element with a field does besides being a region: it is found, listens, is bound and
    holds a component. -/
def ownFeatures (h : Head) : List (Feature β) :=
  match h.info with
  | none => []
  | some info =>
    match info.field with
    | none => []
    | some field =>
      (h.elementId?.toList.map fun elementId => .element field elementId (Tag.domType h.tag))
        ++ (if info.events.isEmpty then [] else [.listeners field info.events])
        ++ (if info.attributes.isEmpty && info.content.isNone then []
          else [.bindings field info.attributes info.content])
        ++ info.component.toList.map (.component field)

end Head

namespace Region

/-- The variable that holds the clone for an item; `next` is the counter's number. -/
def itemRoot (next : Nat) : String :=
  "__x" ++ toString next

/-- A region as a feature, around the code of its children. -/
def feature (field : String) (next : Nat) (inner : Section → β) : Region → Feature β
  | .conditional condition stopper =>
    .conditional field condition stopper
      { created := inner .created, mounted := inner .mounted, unmounted := inner .unmounted }
  | .repeated item collection stopper =>
    .repeated field item collection stopper (itemRoot next) inner

/-- The variable from which the children of a region are found. -/
def childRoot (field : String) (next : Nat) : Region → String
  | .conditional .. => conditionalRoot field
  | .repeated .. => itemRoot next

/-- The counter once the region has its names. -/
def advance (next : Nat) : Region → Nat
  | .conditional .. => next
  | .repeated .. => next + 1

/-- Whether the children's code for a section goes to that section of the scope around. Of a
    conditional region only the declarations do, of a repeated one nothing does. -/
def passes : Region → Section → Bool
  | .conditional .., .declarations => true
  | _, _ => false

/-- The sections of the children that a region embeds in one of its own, in order. -/
def placed : Region → Section → List Section
  | .conditional .., .mounted => [.unmounted, .created, .mounted]
  | .conditional .., .unmounted => [.unmounted]
  | .repeated .., .mounted => [.declarations, .created, .mounted, .unmounted]
  | _, _ => []

end Region

namespace Head

/-- All features of an element, the region last, around the code of its children. -/
def allFeatures (h : Head) (next : Nat) (inner : Section → β) : List (Feature β) :=
  h.ownFeatures ++ h.region?.toList.map fun (field, region) => region.feature field next inner

/-- What an element writes to a section. -/
def code (h : Head) (root : Option String) (next : Nat) (inner : Section → β) (part : Section) :
    List (Segment β) :=
  (h.allFeatures next inner).flatMap fun feature => feature.code root part

/-- The variable from which the children are found. -/
def innerRoot (h : Head) (root : Option String) (next : Nat) : Option String :=
  match h.region? with
  | none => root
  | some (field, region) => some (region.childRoot field next)

/-- The counter when the children's turn comes. -/
def innerNext (h : Head) (next : Nat) : Nat :=
  match h.region? with
  | none => next
  | some (_, region) => region.advance next

/-- Whether the children's code for a section follows that of the element in the same section. -/
def passes (h : Head) (part : Section) : Bool :=
  match h.region? with
  | none => true
  | some (_, region) => region.passes part

/-- The sections of the children that an element embeds in one of its own. -/
def placed (h : Head) (part : Section) : List Section :=
  match h.region? with
  | none => []
  | some (_, region) => region.placed part

end Head

/-! ### The recursion -/

/-- The code of a part of a template by value, and the counter behind it. -/
structure Emission where
  code : Section → List Traced
  next : Nat

mutual
/-- The code of the node at `path`, where elements are found from `root` and the counter stands at
    `next`: what the element writes itself, around or before the code of its children. -/
def Node.emit (path : List Nat) (root : Option String) (next : Nat) : Node → Emission
  | .text _ => { code := fun _ => [], next }
  | .element head children =>
    let inner := emitAll path 0 (head.innerRoot root next) (head.innerNext next) children
    { code := fun part =>
        Traced.ofSegments path part 0 (head.code root next inner.code part)
          ++ if head.passes part then inner.code part else []
      next := inner.next }
/-- The code of children from number `place` on, left to right. -/
def emitAll (path : List Nat) (place : Nat) (root : Option String) (next : Nat) :
    List Node → Emission
  | [] => { code := fun _ => [], next }
  | node :: rest =>
    let first := node.emit (path ++ [place]) root next
    let later := emitAll path (place + 1) root first.next rest
    { code := fun part => first.code part ++ later.code part, next := later.next }
end

/-- The code of a whole template. -/
def Element.emit (e : Element) (root : Option String) (next : Nat) : Emission :=
  e.toNode.emit [] root next

/-! ### Embedding something else -/

@[simp] theorem map_statement (g : β → γ) (code : String) :
    (statement code : List (Segment β)).map (Segment.map g) = statement code := by
  simp only [statement]
  split <;> simp

@[simp] theorem map_watch (g : β → γ) (stopper expression : String) :
    (watch stopper expression : List (Segment β)).map (Segment.map g) = watch stopper expression := by
  simp only [watch]
  split <;> simp

@[simp] theorem map_classWatch (g : β → γ) (field : String) (binding : Binding) :
    (classWatch field binding : List (Segment β)).map (Segment.map g) = classWatch field binding := by
  simp [classWatch]

@[simp] theorem map_contentWatch (g : β → γ) (field : String) (binding : Binding) :
    (contentWatch field binding : List (Segment β)).map (Segment.map g) = contentWatch field binding := by
  simp [contentWatch]

@[simp] theorem map_attributeWatch (g : β → γ) (field name : String) (binding : AttributeBinding) :
    (attributeWatch field name binding : List (Segment β)).map (Segment.map g)
      = attributeWatch field name binding := by
  cases binding <;> simp [attributeWatch, valueWatch, List.map_flatMap]

namespace Feature

/-- A feature with something else embedded. -/
def map (g : β → γ) : Feature β → Feature γ
  | .element field elementId domType => .element field elementId domType
  | .listeners field events => .listeners field events
  | .bindings field attributes content => .bindings field attributes content
  | .component field ref => .component field ref
  | .conditional field condition stopper inner =>
    .conditional field condition stopper
      { created := g inner.created, mounted := g inner.mounted, unmounted := g inner.unmounted }
  | .repeated field item collection stopper itemRoot inner =>
    .repeated field item collection stopper itemRoot fun part => g (inner part)

/-- The code of a feature is the same whatever it embeds. -/
theorem code_map (g : β → γ) (root : Option String) (feature : Feature β) (part : Section) :
    (feature.map g).code root part = (feature.code root part).map (Segment.map g) := by
  cases feature with
  | element field elementId domType => cases part <;> simp [map, code, elementCode]
  | listeners field events => cases part <;> simp [map, code, listenersCode, List.map_flatMap]
  | bindings field attributes content =>
    cases part <;> simp [map, code, bindingsCode, List.map_flatMap]
  | component field ref => cases part <;> simp [map, code, componentCode, List.map_flatMap]
  | conditional field condition stopper inner =>
    cases part <;> simp [map, code, conditionalCode, detachClone, Segment.map]
  | repeated field item collection stopper itemRoot inner =>
    cases part <;> simp [map, code, repeatedCode, removeClones, Segment.map]

end Feature

theorem Head.map_ownFeatures (g : β → γ) (h : Head) :
    (h.ownFeatures : List (Feature β)).map (Feature.map g) = h.ownFeatures := by
  obtain ⟨tag, attrs, _ | ⟨_ | field, elementId, events, attributes, content, component, region⟩⟩ := h
  · rfl
  · rfl
  · simp only [ownFeatures, List.map_append, List.map_map]
    congr 1
    congr 1
    · congr 1
      split <;> rfl
    · split <;> rfl

theorem Head.code_map (g : β → γ) (h : Head) (root : Option String) (next : Nat) (inner : Section → β)
    (part : Section) :
    (h.code root next inner part).map (Segment.map g)
      = h.code root next (fun part => g (inner part)) part := by
  have features : (h.allFeatures next inner).map (Feature.map g)
      = h.allFeatures next fun part => g (inner part) := by
    simp only [allFeatures, List.map_append, map_ownFeatures, List.map_map]
    congr 2
    funext ⟨field, region⟩
    cases region <;> rfl
  simp only [code, ← features, List.map_flatMap, List.flatMap_map, Feature.code_map]

/-! ### What is embedded -/

namespace Code.Segment

/-- What segments embed, in order. -/
def embedded : List (Segment β) → List β
  | [] => []
  | .line _ :: rest => embedded rest
  | .embed content :: rest => content :: embedded rest

@[simp] theorem embedded_append (front back : List (Segment β)) :
    embedded (front ++ back) = embedded front ++ embedded back := by
  induction front with
  | nil => rfl
  | cons segment rest ih => cases segment <;> simp [embedded, ih]

theorem embedded_map (g : β → γ) (segments : List (Segment β)) :
    embedded (segments.map (Segment.map g)) = (embedded segments).map g := by
  induction segments with
  | nil => rfl
  | cons segment rest ih => cases segment <;> simp [embedded, Segment.map, ih]

theorem mem_embedded {c : β} {segments : List (Segment β)} : c ∈ embedded segments ↔ .embed c ∈ segments := by
  induction segments with
  | nil => simp [embedded]
  | cons segment rest ih => cases segment <;> simp [embedded, ih]

/-- Code that is the same whatever it embeds embeds nothing. -/
theorem embedded_eq_nil (bare : List (Segment Empty)) {segments : List (Segment β)}
    (same : bare.map (Segment.map Empty.elim) = segments) : embedded segments = [] := by
  rw [← same, embedded_map]
  cases embedded bare with
  | nil => rfl
  | cons first _ => exact first.elim

end Code.Segment

open Code.Segment (embedded embedded_map embedded_eq_nil)

@[simp] theorem embedded_lines (text : String) : embedded (Code.lines text : List (Segment β)) = [] :=
  embedded_eq_nil _ (Code.map_lines _ text)

@[simp] theorem embedded_allLines (texts : List String) :
    embedded (Code.allLines texts : List (Segment β)) = [] :=
  embedded_eq_nil _ (Code.map_allLines _ texts)

@[simp] theorem embedded_watch (stopper expression : String) :
    embedded (watch stopper expression : List (Segment β)) = [] :=
  embedded_eq_nil _ (map_watch _ stopper expression)

theorem Head.embedded_ownFeatures (h : Head) (root : Option String) (part : Section) :
    embedded ((h.ownFeatures : List (Feature β)).flatMap fun feature => feature.code root part) = [] := by
  refine embedded_eq_nil (h.ownFeatures.flatMap fun feature => feature.code root part) ?_
  rw [← map_ownFeatures (Empty.elim : Empty → β)]
  simp only [List.map_flatMap, List.flatMap_map, Feature.code_map]

/-- An element embeds of its children's code what its region places. -/
theorem Head.embedded_code (h : Head) (root : Option String) (next : Nat) (inner : Section → β)
    (part : Section) : embedded (h.code root next inner part) = (h.placed part).map inner := by
  rw [code, allFeatures, List.flatMap_append, Code.Segment.embedded_append, embedded_ownFeatures]
  rcases found : h.region? with _ | ⟨field, ⟨condition, stopper⟩ | ⟨item, collection, stopper⟩⟩
  · simp [placed, found, embedded]
  · cases part <;>
      simp [placed, found, Region.placed, Region.feature, Feature.code, conditionalCode, detachClone, embedded]
  · cases part <;>
      simp [placed, found, Region.placed, Region.feature, Feature.code, repeatedCode, removeClones, embedded]

/-- What an element embeds does not pass on. -/
theorem Head.passes_of_mem_placed {h : Head} {part caught : Section} (member : caught ∈ h.placed part) :
    h.passes caught = false := by
  rcases found : h.region? with _ | ⟨field, region⟩ <;> simp only [placed, passes, found] at member ⊢
  · cases member
  · cases region <;> cases part <;> cases caught <;> simp_all [Region.placed, Region.passes]

end TemplateWeaver
