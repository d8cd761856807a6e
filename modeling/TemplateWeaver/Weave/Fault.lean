/-!
Faults of annotated markup. Each breaks a rule that metadata has to keep, and stops the weaving of
the unit it is found in.
-/
namespace TemplateWeaver

/-- What an element needs a generated field for. -/
inductive Capability where
  | listeners
  | bindings
  | component
  | conditional
  | repeated
  deriving DecidableEq, Repr

def Capability.text : Capability → String
  | .listeners => "event listeners"
  | .bindings => "data bindings"
  | .component => "component instance"
  | .conditional => "conditional region"
  | .repeated => "repeated region"

inductive Fault where
  /-- An element has a field and no id to be found by. -/
  | missingElementId (field tag : String)
  /-- An element can do something that takes a field, and has none. -/
  | missingField (tag : String) (capability : Capability)
  /-- A region has another number of child elements than one. -/
  | regionChildCount (field : String) (found : Nat)
  deriving DecidableEq, Repr

def Fault.message : Fault → String
  | .missingElementId field tag =>
    "field `" ++ field ++ "` on <" ++ tag ++ "> has no element id to look it up by"
  | .missingField tag capability =>
    "<" ++ tag ++ "> needs a generated field for its " ++ capability.text
  | .regionChildCount field found =>
    "template region `" ++ field ++ "` must contain exactly one child element, found "
      ++ toString found

end TemplateWeaver
