import TemplateWeaver.Json.Basic
import TemplateWeaver.Json.Literal

/-!
Writing JSON text in its compact form: no spaces, items and members in their order.
-/
namespace TemplateWeaver.Json

def writeDigits (digits : List Nat) : List Char :=
  digits.map fun digit => Char.ofNat (0x30 + digit)

def writeNumeral (n : Numeral) : List Char :=
  (if n.negative then ['-'] else []) ++ writeDigits n.whole
    ++ (if n.fraction.isEmpty then [] else '.' :: writeDigits n.fraction)
    ++ match n.exponent with
      | none => []
      | some exponent => 'e' :: (toString exponent).toList

/-- A literal; one without a text is written as half of a surrogate pair. -/
def writeText : Option String → List Char
  | some s => writeLiteral s
  | none => "\"\\ud800\"".toList

mutual
def write : Json → List Char
  | .null => ['n', 'u', 'l', 'l']
  | .bool true => ['t', 'r', 'u', 'e']
  | .bool false => ['f', 'a', 'l', 's', 'e']
  | .number value => writeNumeral value
  | .text value => writeText value
  | .array items => '[' :: writeItems items ++ [']']
  | .object members => '{' :: writeMembers members ++ ['}']
def writeItems : List Json → List Char
  | [] => []
  | [item] => write item
  | item :: rest => write item ++ ',' :: writeItems rest
def writeMembers : List (Option String × Json) → List Char
  | [] => []
  | [(name, value)] => writeText name ++ ':' :: write value
  | (name, value) :: rest => writeText name ++ ':' :: write value ++ ',' :: writeMembers rest
end

/-- The compact text of a value. -/
def render (json : Json) : String :=
  String.ofList (write json)

end TemplateWeaver.Json
