import TemplateWeaver.OrderedMap

/-!
Template metadata: what is known of an element besides its tag. Expressions are opaque text of the
target language. All names given here are names in the generated code.
-/
namespace TemplateWeaver

/-- A handler statement and the field that keeps the listener, so that it can be removed again. -/
structure Listener where
  action : String
  field : String
  deriving DecidableEq, Repr

/-- A watched expression and the field that keeps what ends the watch. -/
structure Binding where
  expression : String
  stopper : String
  deriving DecidableEq, Repr

/-- What an attribute is bound to: one value, or a list of class tokens with a watch each. -/
inductive AttributeBinding where
  | value (binding : Binding)
  | classes (bindings : List Binding)
  deriving DecidableEq, Repr

/-- The fields that keep the watches of an attribute. -/
def AttributeBinding.stoppers : AttributeBinding → List String
  | .value binding => [binding.stopper]
  | .classes bindings => bindings.map Binding.stopper

/-- A component that a template uses: its class, the file that defines the class, and values that
    are assigned right after construction. -/
structure ComponentUse where
  className : String
  file : String
  values : OrderedMap String := .empty

/-- A part of a template that is cloned at run time: while a condition holds, or once for each item
    of a collection. -/
inductive Region where
  | conditional (condition stopper : String)
  | repeated (item collection stopper : String)
  deriving DecidableEq, Repr

/-- The metadata of one element. -/
structure Info where
  /-- The generated field that holds the element. -/
  field : Option String := none
  /-- The id by which the element is found once it has been created. -/
  elementId : Option String := none
  events : OrderedMap (List Listener) := .empty
  attributes : OrderedMap AttributeBinding := .empty
  content : Option Binding := none
  component : Option ComponentUse := none
  region : Option Region := none

namespace ComponentUse

def withValue (c : ComponentUse) (name value : String) : ComponentUse :=
  { c with values := c.values.insert name value }

/-- Equal but for the order of the values. -/
def agrees (c d : ComponentUse) : Bool :=
  c.className == d.className && c.file == d.file && c.values.agrees (· == ·) d.values

end ComponentUse

namespace Info

def withField (i : Info) (field elementId : String) : Info :=
  { i with field := some field, elementId := some elementId }

/-- Adds a listener behind those that the event already has. -/
def withListener (i : Info) (event : String) (listener : Listener) : Info :=
  { i with events := i.events.insert event ((i.events.get? event).getD [] ++ [listener]) }

def withAttribute (i : Info) (name : String) (binding : AttributeBinding) : Info :=
  { i with attributes := i.attributes.insert name binding }

def withContent (i : Info) (binding : Binding) : Info :=
  { i with content := some binding }

def withComponent (i : Info) (component : ComponentUse) : Info :=
  { i with component := some component }

def withRegion (i : Info) (region : Region) : Info :=
  { i with region := some region }

/-- The fields that keep the watches of all attributes, in order. -/
def attributeStoppers (i : Info) : List String :=
  i.attributes.values.flatMap AttributeBinding.stoppers

/-- Equal but for the order of events, attributes and values. -/
def agrees (i j : Info) : Bool :=
  i.field == j.field && i.elementId == j.elementId && i.events.agrees (· == ·) j.events
    && i.attributes.agrees (· == ·) j.attributes && i.content == j.content
    && (match i.component, j.component with
      | some c, some d => c.agrees d
      | none, none => true
      | _, _ => false)
    && i.region == j.region

end Info

end TemplateWeaver
