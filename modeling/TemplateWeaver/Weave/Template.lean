import TemplateWeaver.Markup.Tag
import TemplateWeaver.Weave.Fault
import TemplateWeaver.Weave.Feature

/-!
Weaving a template: elements are visited in the order of their start tags, and each adds the code of
its features to its scope. The first faulty element ends the walk. It adds nothing itself, and what
was added before it stays.
-/
namespace TemplateWeaver

open Code (BufferId)

variable {β : Type}

namespace Head

/-- The generated field of an element that needs one. -/
def needField (h : Head) (info : Info) (capability : Capability) : Except Fault String :=
  match info.field with
  | some field => .ok field
  | none => .error (.missingField h.tag capability)

/-- The feature that finds the element, if it has a field. -/
def fieldFeature (h : Head) (info : Info) : Except Fault (List (Feature β)) :=
  match info.field with
  | none => .ok []
  | some field =>
    match h.elementId? with
    | some elementId => .ok [.element field elementId (Tag.domType h.tag)]
    | none => .error (.missingElementId field h.tag)

/-- The features that need no buffers of their own, in the order in which they refer to one
    another. -/
def plainFeatures (h : Head) (info : Info) : Except Fault (List (Feature β)) := do
  let found ← h.fieldFeature info
  let listeners ←
    if info.events.isEmpty then .ok []
    else (h.needField info .listeners).map fun field => [Feature.listeners field info.events]
  let bindings ←
    if info.attributes.isEmpty && info.content.isNone then .ok []
    else (h.needField info .bindings).map fun field =>
      [Feature.bindings field info.attributes info.content]
  let component ←
    match info.component with
    | none => .ok []
    | some component =>
      (h.needField info .component).map fun field => [Feature.component field component]
  return found ++ listeners ++ bindings ++ component

/-- The field of a region, which has to have exactly one child element. -/
def regionField (h : Head) (info : Info) (children : List Node) (capability : Capability) :
    Except Fault String := do
  let field ← h.needField info capability
  let found := (elementHeads children).length
  if found = 1 then return field else .error (.regionChildCount field found)

/-- The region of an element, with new buffers for its children. -/
def regionFeature (h : Head) (info : Info) (children : List Node) (counter : CounterId)
    (w : Workspace) : Except Fault (List (Feature BufferId) × Workspace) :=
  match info.region with
  | none => .ok ([], w)
  | some (.conditional condition stopper) => do
    let field ← h.regionField info children .conditional
    let (created, w) := w.allocate
    let (mounted, w) := w.allocate
    let (unmounted, w) := w.allocate
    return ([.conditional field condition stopper { created, mounted, unmounted }], w)
  | some (.repeated item collection stopper) => do
    let field ← h.regionField info children .repeated
    let (itemRoot, w) := w.newName counter "__x"
    let (inner, w) := w.allocateSections
    return ([.repeated field item collection stopper itemRoot inner], w)

/-- The features of an element, at most one region last. -/
def features (h : Head) (children : List Node) (counter : CounterId) (w : Workspace) :
    Except Fault (List (Feature BufferId) × Workspace) :=
  match h.info with
  | none => .ok ([], w)
  | some info => do
    let plain ← h.plainFeatures info
    let (region, w) ← h.regionFeature info children counter w
    return (plain ++ region, w)

end Head

/-- Adds the code of features to a scope, one feature after the other. -/
def writeFeatures (w : Workspace) (scope : Scope) (features : List (Feature BufferId)) : Workspace :=
  features.foldl (fun w feature => w.write scope (feature.code scope.queryRoot)) w

/-- The scope of the children of an element with these features. -/
def innerScope (scope : Scope) (features : List (Feature BufferId)) : Scope :=
  match features.find? Feature.isRegion with
  | some region => region.childScope scope
  | none => scope

mutual
/-- Weaves a node into a scope: the workspace afterwards, and the fault that ended the walk. -/
def Node.weave (scope : Scope) (w : Workspace) : Node → Workspace × Option Fault
  | .text _ => (w, none)
  | .element head children =>
    match head.features children scope.counter w with
    | .error fault => (w, some fault)
    | .ok (features, w) =>
      weaveAll (innerScope scope features) (writeFeatures w scope features) children
def weaveAll (scope : Scope) (w : Workspace) : List Node → Workspace × Option Fault
  | [] => (w, none)
  | node :: rest =>
    match Node.weave scope w node with
    | (w, some fault) => (w, some fault)
    | (w, none) => weaveAll scope w rest
end

/-- Weaves an element and all that is in it. -/
def Element.weave (e : Element) (scope : Scope) (w : Workspace) : Workspace × Option Fault :=
  e.toNode.weave scope w

end TemplateWeaver
