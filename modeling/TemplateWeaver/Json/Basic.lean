/-!
JSON values as they are written: members keep their order and may repeat, and numbers keep their
digits. A string literal may hold an escape for one half of a surrogate pair alone; it then has no
text, which matters only to those who read it.
-/
namespace TemplateWeaver

/-! ### Numerals -/

/-- A number literal. Digits stand for themselves; there is no fraction when it has none. -/
structure Numeral where
  negative : Bool
  whole : List Nat
  fraction : List Nat
  exponent : Option Int
  deriving DecidableEq, Repr

namespace Numeral

def ofDigits (digits : List Nat) : Nat :=
  digits.foldl (fun value digit => value * 10 + digit) 0

/-- The value of a literal that is nothing but digits. -/
def toNat? (n : Numeral) : Option Nat :=
  if !n.negative && n.fraction.isEmpty && n.exponent.isNone then some (ofDigits n.whole) else none

/-- Takes digits into a significand as long as it fits in 64 bits. -/
def accumulate (significand : Nat) : List Nat → Nat × List Nat
  | [] => (significand, [])
  | digit :: rest =>
    if significand * 10 + digit < 2 ^ 64 then accumulate (significand * 10 + digit) rest
    else (significand, digit :: rest)

/-- Significand and decimal exponent: digits of the whole part that no longer fit raise the
    exponent, and those of the fraction are left out. -/
def scientific (n : Numeral) : Nat × Int :=
  let (high, left) := accumulate 0 n.whole
  let (significand, unread) := accumulate high n.fraction
  (significand, left.length - (n.fraction.length - unread.length : Nat) + n.exponent.getD 0)

/-- Whether the number is within the range of a double. -/
def isFinite (n : Numeral) : Bool :=
  let (significand, exponent) := n.scientific
  exponent ≤ 0 || significand == 0 ||
    exponent ≤ 308 &&
      (Float.ofNat significand * Float.ofScientific 1 false exponent.toNat).isFinite

end Numeral

/-! ### Values -/

inductive Json where
  | null
  | bool (value : Bool)
  | number (value : Numeral)
  /-- A string literal, with its text unless half of a surrogate pair stands alone in it. -/
  | text (value : Option String)
  | array (items : List Json)
  | object (members : List (Option String × Json))

namespace Json

mutual
/-- How many containers lie within one another. -/
def depth : Json → Nat
  | .array items => depthItems items + 1
  | .object members => depthMembers members + 1
  | _ => 0
def depthItems : List Json → Nat
  | [] => 0
  | item :: rest => max (depth item) (depthItems rest)
def depthMembers : List (Option String × Json) → Nat
  | [] => 0
  | (_, value) :: rest => max (depth value) (depthMembers rest)
end

mutual
/-- Whether every literal in a value stands for something: strings and member names have a text,
    and numbers are within range. -/
def readable : Json → Bool
  | .number value => value.isFinite
  | .text value => value.isSome
  | .array items => readableItems items
  | .object members => readableMembers members
  | _ => true
def readableItems : List Json → Bool
  | [] => true
  | item :: rest => readable item && readableItems rest
def readableMembers : List (Option String × Json) → Bool
  | [] => true
  | (name, value) :: rest => name.isSome && readable value && readableMembers rest
end

/-- A string value. -/
def ofString (s : String) : Json :=
  .text (some s)

/-- An object whose members have the given names. -/
def ofFields (fields : List (String × Json)) : Json :=
  .object (fields.map fun field => (some field.1, field.2))

end Json

end TemplateWeaver
