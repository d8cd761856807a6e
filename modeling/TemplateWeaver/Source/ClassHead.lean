import TemplateWeaver.Source.Library

/-!
Class heads: where the body of a named class opens. A class head is the word `class`, a class name
and everything up to the opening brace; it is looked for in masked text.
-/
namespace TemplateWeaver.Source

/-- What can neither stand before `class` nor follow the class name: a word character or a dollar
    sign. -/
def isNamePart (c : Char) : Bool :=
  Text.isWordChar c || c == '$'

/-- The text behind the first opening brace. -/
def afterBrace? : List Char → Option (List Char)
  | [] => none
  | '{' :: rest => some rest
  | _ :: rest => afterBrace? rest

/-- What follows the opening brace of a class body, given the text behind the class name. The name
    ends at the brace or at a character that cannot be part of it. -/
def classBody? : List Char → Option (List Char)
  | [] => none
  | c :: rest => if isNamePart c then none else afterBrace? (c :: rest)

/-- The class body behind blank characters and the class name. Of the leading blank characters
    `blanks` may be passed over; the most are tried first, and one at least is. -/
def bodyAfterBlanks? (name : List Char) : Nat → List Char → Option (List Char)
  | 0, _ => none
  | blanks + 1, cs =>
    match (Text.dropWord? name (cs.drop (blanks + 1))).bind classBody? with
    | some rest => some rest
    | none => bodyAfterBlanks? name blanks cs

/-- The class body if a class head for `name` begins here. -/
def classHead? (name : List Char) (cs : List Char) : Option (List Char) :=
  (Text.dropWord? "class".toList cs).bind fun rest =>
    bodyAfterBlanks? name (rest.takeWhile Text.isBlank).length rest

/-- What follows the opening brace of the first class head; `before` is the character ahead of the
    text. No word character, dollar sign or dot stands right before a class head. -/
def findClassHead? (name : List Char) (before : Option Char) : List Char → Option (List Char)
  | [] => none
  | c :: rest =>
    match classHead? name (c :: rest) with
    | some body =>
      if before.all fun b => !isNamePart b && b != '.' then some body
      else findClassHead? name (some c) rest
    | none => findClassHead? name (some c) rest

/-- The byte offset just behind the opening brace of the first class head for `name` in masked
    text. -/
def classBodyOffset? (name masked : String) : Option Nat :=
  (findClassHead? name.toList none masked.toList).map fun body =>
    Text.byteSize masked.toList - Text.byteSize body

end TemplateWeaver.Source
