import TemplateWeaver.Markup.Node
import TemplateWeaver.Source.Literal
import TemplateWeaver.Weave.Scope
import TemplateWeaver.Weave.Statement

/-!
Features of elements and the code that each has in the four sections. Regions embed the code of
their children where a clone of the child is made and where it is taken away; it is caught in
buffers of their own.
-/
namespace TemplateWeaver

open Code (BufferId Segment)
open Source (literal)

variable {β : Type}

/-- The code of a conditional region's children. Their declarations stay with those of the scope
    around it. -/
structure ConditionalCode (β : Type) where
  created : β
  mounted : β
  unmounted : β

/-- Something that an element does, with the generated field of the element. Regions have the code
    of their children to embed. -/
inductive Feature (β : Type) where
  /-- The element is found by its id and kept in the field. -/
  | element (field elementId domType : String)
  | listeners (field : String) (events : OrderedMap (List Listener))
  | bindings (field : String) (attributes : OrderedMap AttributeBinding) (content : Option Binding)
  | component (field : String) (ref : ComponentUse)
  | conditional (field condition stopper : String) (inner : ConditionalCode β)
  /-- `itemRoot` is the variable that holds the clone for the current item. -/
  | repeated (field item collection stopper itemRoot : String) (inner : Section → β)

/-! ### Elements -/

/-- Finds an element by its id, from the root of the unit or from a clone, which may itself be the
    element. -/
def lookupLine (queryRoot : Option String) (field elementId : String) : String :=
  let selector := literal ("#" ++ elementId)
  match queryRoot with
  | none => s!"{field} = {Names.root}.query({selector});"
  | some root =>
    s!"{field} = {root}.id == {literal elementId} ? {root} : {root}.query({selector});"

def elementCode (queryRoot : Option String) (field elementId domType : String) :
    Section → List (Segment β)
  | .declarations => Code.lines s!"{Names.typeName domType} {field};"
  | .created => Code.lines (lookupLine queryRoot field elementId)
  | _ => []

/-! ### Listeners -/

/-- The listeners of all events in order, each with the name of its event. -/
def eventListeners (events : OrderedMap (List Listener)) : List (String × Listener) :=
  events.entries.flatMap fun entry => entry.2.map (entry.1, ·)

def listenersCode (field : String) (events : OrderedMap (List Listener)) : Section → List (Segment β)
  | .declarations =>
    (eventListeners events).flatMap fun (_, listener) =>
      Code.lines s!"{Names.listenerType} {listener.field};"
  | .created => []
  | .mounted =>
    (eventListeners events).flatMap fun (event, listener) =>
      Code.lines s!"{listener.field} = (e) \x7b"
        ++ statement listener.action
        ++ Code.allLines
          [Names.dispatch, "\x7d;", s!"{field}.on[{literal event}].add({listener.field});"]
  | .unmounted =>
    (eventListeners events).flatMap fun (event, listener) =>
      Code.allLines
        [s!"{field}.on[{literal event}].remove({listener.field});", s!"{listener.field} = null;"]

/-! ### Bindings -/

/-- The member that a bound attribute writes to. -/
def attributeMember (name : String) : String :=
  match Text.dropWord? "data-".toList name.toList with
  | some key => s!"dataAttributes[{literal (String.ofList key)}]"
  | none =>
    if name = "class" then "className"
    else if Source.isMemberName name then name
    else s!"attributes[{literal name}]"

/-- A watch that writes the value of an expression to a member. -/
def valueWatch (field name : String) (binding : Binding) : List (Segment β) :=
  watch binding.stopper binding.expression
    ++ Code.allLines [s!"{field}.{attributeMember name} = e.newValue;", watchEnd]

/-- A watch that swaps a class token for another. -/
def classWatch (field : String) (binding : Binding) : List (Segment β) :=
  watch binding.stopper binding.expression
    ++ Code.allLines
      ["if (e.oldValue != null && e.oldValue != '') \x7b",
       s!"{field}.classes.remove(e.oldValue);",
       "\x7d",
       "if (e.newValue != null && e.newValue != '') \x7b",
       s!"{field}.classes.add(e.newValue);",
       "\x7d",
       watchEnd]

/-- A watch that writes the value of an expression as the text of an element. -/
def contentWatch (field : String) (binding : Binding) : List (Segment β) :=
  watch binding.stopper binding.expression
    ++ Code.allLines
      [s!"{field}.innerHTML = {Names.library}.htmlEscape('$\x7be.newValue\x7d');", watchEnd]

def attributeWatch (field name : String) : AttributeBinding → List (Segment β)
  | .value binding => valueWatch field name binding
  | .classes bindings => bindings.flatMap (classWatch field)

/-- The fields that keep all watches, in the order of the watches. -/
def bindingStoppers (attributes : OrderedMap AttributeBinding) (content : Option Binding) :
    List String :=
  attributes.values.flatMap AttributeBinding.stoppers ++ content.toList.map Binding.stopper

def bindingsCode (field : String) (attributes : OrderedMap AttributeBinding)
    (content : Option Binding) : Section → List (Segment β)
  | .declarations =>
    (bindingStoppers attributes content).flatMap fun stopper =>
      Code.lines s!"{Names.stopperType} {stopper};"
  | .created => []
  | .mounted =>
    (attributes.entries.flatMap fun entry => attributeWatch field entry.1 entry.2)
      ++ content.toList.flatMap (contentWatch field)
  | .unmounted =>
    (bindingStoppers attributes content).flatMap fun stopper => Code.lines s!"{stopper}();"

/-! ### Components -/

def componentCode (field : String) (component : ComponentUse) : Section → List (Segment β)
  | .declarations => []
  | .created =>
    Code.lines s!"new {component.className}.forElement({field});"
      ++ (component.values.entries.flatMap fun value =>
        statement s!"{field}.xtag.{value.1} = {Text.trim value.2}")
      ++ Code.lines s!"{field}.xtag.{Names.createdHook}();"
  | .mounted => Code.lines s!"{field}.xtag.{Names.mountedHook}();"
  | .unmounted => Code.lines s!"{field}.xtag.{Names.unmountedHook}();"

/-! ### Conditional regions -/

/-- The variable that holds the clone of a conditional region. -/
def conditionalRoot (field : String) : String :=
  field ++ "_child"

/-- Takes the clone of a conditional region away. -/
def detachClone (field : String) (inner : ConditionalCode β) : List (Segment β) :=
  .embed inner.unmounted
    :: Code.allLines [s!"{conditionalRoot field}.remove();", s!"{conditionalRoot field} = null;"]

def conditionalCode (field condition stopper : String) (inner : ConditionalCode β) :
    Section → List (Segment β)
  | .declarations =>
    Code.allLines
      [s!"// Fields for conditional region `{Text.oneLine condition}`.",
       s!"{Names.stopperType} {stopper};",
       s!"{Names.elementType} {field}_childTemplate;",
       s!"{Names.elementType} {field}_parent;",
       s!"{Names.elementType} {field}_child;",
       s!"String {field}_childId;"]
  | .created =>
    Code.allLines
      [s!"assert({field}.elements.length == 1);",
       s!"{field}_childTemplate = {field}.elements[0];",
       s!"{field}_childId = {field}_childTemplate.id;",
       s!"if ({field}_childId != null && {field}_childId != '') {field}_childTemplate.id = '';",
       s!"{field}.style.display = 'none';",
       s!"{field}.nodes.clear();"]
  | .mounted =>
    Code.lines s!"{field}_parent = {field}.parent;"
      ++ watch stopper condition
      ++ Code.allLines
        ["bool showNow = e.newValue == true;", s!"if ({field}_child != null && !showNow) \x7b"]
      ++ detachClone field inner
      ++ Code.allLines
        [s!"\x7d else if ({field}_child == null && showNow) \x7b",
         s!"{field}_child = {field}_childTemplate.clone(true);",
         s!"if ({field}_childId != null && {field}_childId != '') \x7b",
         s!"{field}_child.id = {field}_childId;",
         "\x7d"]
      ++ [.embed inner.created, .embed inner.mounted]
      ++ Code.allLines
        [s!"{field}_parent.insertBefore({field}_child, {field}.nextNode);", "\x7d", watchEnd]
  | .unmounted =>
    Code.allLines [s!"{stopper}();", s!"if ({conditionalRoot field} != null) \x7b"]
      ++ detachClone field inner
      ++ Code.lines "\x7d"

/-! ### Repeated regions -/

/-- Takes the clones of a repeated region away. -/
def removeClones (field : String) : List (Segment β) :=
  Code.allLines
    [s!"for (var remover in {field}_removeChild) \x7b", "remover();", "\x7d",
     s!"{field}_removeChild.clear();"]

def repeatedCode (field item collection stopper itemRoot : String) (inner : Section → β) :
    Section → List (Segment β)
  | .declarations =>
    Code.allLines
      [s!"// Fields for repeated region `{Text.oneLine item} in {Text.oneLine collection}`.",
       s!"{Names.stopperType} {stopper};",
       s!"{Names.elementType} {field}_childTemplate;",
       s!"List<Function> {field}_removeChild = [];"]
  | .created =>
    Code.allLines
      [s!"assert({field}.elements.length == 1);",
       s!"{field}_childTemplate = {field}.elements[0];",
       s!"{field}.nodes.clear();"]
  | .mounted =>
    watch stopper collection
      ++ removeClones field
      ++ Code.allLines
        ["if (e.newValue is Iterable) \x7b",
         s!"for (var {Text.oneLine item} in e.newValue) \x7b",
         s!"var {itemRoot} = {field}_childTemplate.clone(true);"]
      ++ [.embed (inner .declarations), .embed (inner .created), .embed (inner .mounted)]
      ++ Code.allLines
        [s!"{field}.nodes.add({itemRoot});", s!"{field}_removeChild.add(() \x7b"]
      ++ [.embed (inner .unmounted)]
      ++ Code.allLines [s!"{itemRoot}.remove();", "\x7d);", "\x7d", "\x7d", watchEnd]
  | .unmounted => Code.lines s!"{stopper}();" ++ removeClones field

/-! ### All features -/

namespace Feature

/-- The code of a feature where elements are found from `queryRoot`. -/
def code (queryRoot : Option String) : Feature β → Section → List (Segment β)
  | .element field elementId domType => elementCode queryRoot field elementId domType
  | .listeners field events => listenersCode field events
  | .bindings field attributes content => bindingsCode field attributes content
  | .component field ref => componentCode field ref
  | .conditional field condition stopper inner => conditionalCode field condition stopper inner
  | .repeated field item collection stopper itemRoot inner =>
    repeatedCode field item collection stopper itemRoot inner

def isRegion : Feature β → Bool
  | .conditional .. | .repeated .. => true
  | _ => false

/-- The scope of an element's children; only regions have one of their own. -/
def childScope (scope : Scope) : Feature BufferId → Scope
  | .conditional field _ _ inner =>
    { scope with
      buffers := fun
        | .declarations => scope.buffers .declarations
        | .created => inner.created
        | .mounted => inner.mounted
        | .unmounted => inner.unmounted
      queryRoot := some (conditionalRoot field) }
  | .repeated _ _ _ _ itemRoot inner =>
    { scope with buffers := inner, queryRoot := some itemRoot }
  | _ => scope

end Feature

end TemplateWeaver
