import TemplateWeaver.Json.Basic
import TemplateWeaver.Json.Literal

/-!
Reading JSON text, strictly: no comments, no trailing commas, no leading zeros, nothing behind the
value. Nesting has no limit here; those who read shapes set one.
-/
namespace TemplateWeaver.Json

def isSpace (c : Char) : Bool :=
  c == ' ' || c == '\n' || c == '\r' || c == '\t'

def skipSpace (cs : List Char) : List Char :=
  cs.dropWhile isSpace

/-! ### Numerals -/

/-- The digits that a text begins with, and the rest. -/
def digits (cs : List Char) : List Nat × List Char :=
  ((cs.takeWhile Char.isDigit).map fun c => c.toNat - 0x30, cs.dropWhile Char.isDigit)

def readFraction? : List Char → Option (List Nat × List Char)
  | '.' :: rest =>
    let (fraction, after) := digits rest
    if fraction.isEmpty then none else some (fraction, after)
  | cs => some ([], cs)

/-- The digits of an exponent whose mark and sign have been read. -/
def readExponentDigits? (negative : Bool) (cs : List Char) : Option (Option Int × List Char) :=
  let (exponent, after) := digits cs
  let value : Int := Numeral.ofDigits exponent
  if exponent.isEmpty then none else some (some (if negative then -value else value), after)

def readExponent? : List Char → Option (Option Int × List Char)
  | mark :: rest =>
    if mark = 'e' ∨ mark = 'E' then
      match rest with
      | '+' :: after => readExponentDigits? false after
      | '-' :: after => readExponentDigits? true after
      | after => readExponentDigits? false after
    else some (none, mark :: rest)
  | [] => some (none, [])

/-- A number literal whose sign has been read. A whole part that begins with zero is zero. -/
def readUnsigned? (negative : Bool) (cs : List Char) : Option (Numeral × List Char) := do
  let (whole, rest) := match cs with
    | '0' :: rest => ([0], rest)
    | cs => digits cs
  if whole.isEmpty then none
  else
    let (fraction, rest) ← readFraction? rest
    let (exponent, rest) ← readExponent? rest
    return ({ negative, whole, fraction, exponent }, rest)

def readNumeral? : List Char → Option (Numeral × List Char)
  | '-' :: rest => readUnsigned? true rest
  | cs => readUnsigned? false cs

/-! ### Values -/

mutual
/-- A value at the beginning of a text, and what follows it. Every call reads a character at least,
    so twice the length of the text is `fuel` enough. -/
def readValue : Nat → List Char → Option (Json × List Char)
  | 0, _ => none
  | fuel + 1, cs =>
    match cs with
    | 'n' :: 'u' :: 'l' :: 'l' :: rest => some (.null, rest)
    | 't' :: 'r' :: 'u' :: 'e' :: rest => some (.bool true, rest)
    | 'f' :: 'a' :: 'l' :: 's' :: 'e' :: rest => some (.bool false, rest)
    | '"' :: rest => (readLiteral rest).map fun (value, after) => (.text value, after)
    | '[' :: rest =>
      match skipSpace rest with
      | ']' :: after => some (.array [], after)
      | inside => (readItems fuel inside).map fun (items, after) => (.array items, after)
    | '{' :: rest =>
      match skipSpace rest with
      | '}' :: after => some (.object [], after)
      | inside => (readMembers fuel inside).map fun (members, after) => (.object members, after)
    | cs => (readNumeral? cs).map fun (value, after) => (.number value, after)
/-- The items up to the closing bracket, one at least. -/
def readItems : Nat → List Char → Option (List Json × List Char)
  | 0, _ => none
  | fuel + 1, cs => do
    let (item, rest) ← readValue fuel cs
    match skipSpace rest with
    | ']' :: after => some ([item], after)
    | ',' :: rest =>
      let (items, after) ← readItems fuel (skipSpace rest)
      return (item :: items, after)
    | _ => none
/-- The members up to the closing brace, one at least. -/
def readMembers : Nat → List Char → Option (List (Option String × Json) × List Char)
  | 0, _ => none
  | fuel + 1, cs =>
    match cs with
    | '"' :: rest => do
      let (name, rest) ← readLiteral rest
      match skipSpace rest with
      | ':' :: rest =>
        let (value, rest) ← readValue fuel (skipSpace rest)
        match skipSpace rest with
        | '}' :: after => some ([(name, value)], after)
        | ',' :: rest =>
          let (members, after) ← readMembers fuel (skipSpace rest)
          return ((name, value) :: members, after)
        | _ => none
      | _ => none
    | _ => none
end

/-- The value that a text holds, with space around it allowed and nothing else. -/
def parse? (s : String) : Option Json :=
  match readValue (2 * s.toList.length + 1) (skipSpace s.toList) with
  | some (value, rest) => if (skipSpace rest).isEmpty then some value else none
  | none => none

end TemplateWeaver.Json
