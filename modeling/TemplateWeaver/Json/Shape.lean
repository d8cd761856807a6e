import TemplateWeaver.Json.Parser
import TemplateWeaver.OrderedMap

/-!
Reading shapes out of JSON values. A record is written as an object with its fields by name, in any
order and among members that nobody knows, or as an array with its fields in order. One of several
records is told apart by a tag among its members or at the head of its array.

A reader has room for so many containers within one another. Members that nobody knows are passed
over and need no room. A tagged value is taken in whole before its tag is looked at, so it is
checked in whole: its nesting, its strings and its numbers.
-/
namespace TemplateWeaver.Json

/-- Reads a shape. `room` more containers can be opened; `held` says that the value is part of one
    that has been taken in whole. -/
abbrev Reader (α : Type) := (room : Nat) → (held : Bool) → Json → Option α

variable {α : Type}

/-! ### Plain shapes -/

def readText : Reader String
  | _, _, .text value => value
  | _, _, _ => none

def readFlag : Reader Bool
  | _, _, .bool value => some value
  | _, _, _ => none

/-- A value that may be null. -/
def readNullable (read : Reader α) : Reader (Option α)
  | _, _, .null => some none
  | room, held, json => (read room held json).map some

def readList (read : Reader α) : Reader (List α)
  | room + 1, held, .array items => items.mapM (read room held)
  | _, _, _ => none

/-- A map by name. A name given twice has its first place and its last value. -/
def readMap (read : Reader α) : Reader (OrderedMap α)
  | room + 1, held, .object members =>
    (members.mapM fun (member : Option String × Json) => do
      return (← member.1, ← read room held member.2)).map OrderedMap.ofList
  | _, _, _ => none

/-! ### Records -/

/-- The fields of a record that were given, by name, with what a reader needs to go on. -/
structure Record where
  room : Nat
  held : Bool
  /-- The record was written as an array. -/
  positional : Bool
  fields : List (String × Json)

/-- The fields of an object, or none if one of the names is given twice. -/
def namedFields? (names : List String) (members : List (Option String × Json)) :
    Option (List (String × Json)) := do
  let named ← members.mapM fun member => member.1.map (·, member.2)
  let known := named.filter fun field => names.contains field.1
  if (known.map Prod.fst).Nodup then some known else none

/-- The fields of an array, or none if there are more items than names. -/
def positionalFields? (names : List String) (items : List Json) : Option (List (String × Json)) :=
  if items.length ≤ names.length then some (names.zip items) else none

/-- A record with fields of the given names. -/
def readRecord (names : List String) : Reader Record
  | room + 1, held, .object members =>
    (namedFields? names members).map fun fields => { room, held, positional := false, fields }
  | room + 1, held, .array items =>
    (positionalFields? names items).map fun fields => { room, held, positional := true, fields }
  | _, _, _ => none

namespace Record

/-- A field that has to be there. -/
def required (r : Record) (name : String) (read : Reader α) : Option α :=
  (r.fields.lookup name).bind (read r.room r.held)

/-- A field that may be left out. -/
def optional (r : Record) (name : String) (default : α) (read : Reader α) : Option α :=
  match r.fields.lookup name with
  | some json => read r.room r.held json
  | none => some default

/-- A field that may be null, or left out. -/
def nullable (r : Record) (name : String) (read : Reader α) : Option (Option α) :=
  r.optional name none (readNullable read)

end Record

/-! ### Tagged records -/

/-- The tag that a value names. Within a value taken in whole, its number does as well. -/
def tag? (tags : List String) (held : Bool) : Json → Option String
  | .text (some name) => if tags.contains name then some name else none
  | .number n => if held then n.toNat?.bind (tags[·]?) else none
  | _ => none

/-- The tag and what remains without it, still to be read as a record. -/
def splitTag? (name : String) (tags : List String) (held : Bool) : Json → Option (String × Json)
  | .object members =>
    match members.filter (fun member => member.1 == some name) with
    | [(_, tag)] =>
      (tag? tags held tag).map
        (·, .object (members.filter fun member => member.1 != some name))
    | _ => none
  | .array (tag :: items) => (tag? tags held tag).map (·, .array items)
  | _ => none

/-- Whether a value can be taken in whole. -/
def fits (room : Nat) (json : Json) : Bool :=
  json.depth ≤ room && json.readable

/-- One of several records, told apart by the tag called `name`. -/
def readTagged (name : String) (tags : List String) (read : String → Reader α) : Reader α :=
  fun room held json =>
    if held || json.fits room then
      (splitTag? name tags held json).bind fun (tag, record) => read tag room true record
    else none

/-! ### Whole texts and values -/

/-- How many containers may lie within one another in a text. -/
def nestingLimit : Nat := 127

/-- Reads a shape out of JSON text. -/
def decode? (read : Reader α) (text : String) : Option α :=
  (parse? text).bind (read nestingLimit false)

/-- Reads a shape out of a value that is at hand already, whatever its nesting. -/
def read? (read : Reader α) (json : Json) : Option α :=
  read json.depth false json

end TemplateWeaver.Json
