import TemplateWeaver.Text.Cut

/-!
Masking source text: comments and the insides of string literals become blanks, byte for byte, so
that a search in the masked text sees code only and every offset it finds is good in the text
itself. The scanner reads bytes; all that it looks for is ASCII, and no byte of a longer character
is.
-/
namespace TemplateWeaver.Source

/-! ### The scanner -/

def lineFeed : UInt8 := 0x0A
def space : UInt8 := 0x20
def slash : UInt8 := 0x2F
def star : UInt8 := 0x2A
def backslash : UInt8 := 0x5C

/-- A single or a double quote. -/
def isQuote (b : UInt8) : Bool :=
  b == 0x27 || b == 0x22

/-- Where the scanner stands between two bytes. -/
inductive Mode where
  | code
  | lineComment
  | blockComment
  /-- Inside a literal that opened with one `quote`, or with three of them when `triple`. -/
  | literal (quote : UInt8) (triple : Bool)
  deriving DecidableEq, Repr

/-- A byte that is overwritten: line feeds stay. -/
def overwritten (fill b : UInt8) : UInt8 :=
  if b = lineFeed then b else fill

/-- A masked byte: line feeds stay, all else is a space. -/
def blank (b : UInt8) : UInt8 :=
  overwritten space b

/-- The bytes of a text with its comments and the insides of its literals overwritten, from a
    given mode on. Line comments are overwritten with `fill`, all else with spaces.

    A block comment ends at the first `*/` after its `/*`. A backslash in a literal hides the next
    byte; a literal with one quote also ends before a line feed. What is left open runs to the
    end of the text. -/
def scan (fill : UInt8) : Mode → List UInt8 → List UInt8
  | _, [] => []
  | .code, [b] => [b]
  | .code, b :: c :: rest =>
    if b = slash ∧ c = slash then fill :: fill :: scan fill .lineComment rest
    else if b = slash ∧ c = star then space :: space :: scan fill .blockComment rest
    else if isQuote b then
      match rest with
      | d :: after =>
        if c = b ∧ d = b then b :: c :: d :: scan fill (.literal b true) after
        else b :: scan fill (.literal b false) (c :: d :: after)
      | [] => b :: scan fill (.literal b false) [c]
    else b :: scan fill .code (c :: rest)
  | .lineComment, b :: rest =>
    if b = lineFeed then b :: scan fill .code rest else fill :: scan fill .lineComment rest
  | .blockComment, [b] => [blank b]
  | .blockComment, b :: c :: rest =>
    if b = star ∧ c = slash then space :: space :: scan fill .code rest
    else blank b :: scan fill .blockComment (c :: rest)
  | .literal quote false, b :: rest =>
    if b = backslash then
      match rest with
      | [] => [space]
      | c :: after => space :: blank c :: scan fill (.literal quote false) after
    else if b = quote ∨ b = lineFeed then b :: scan fill .code rest
    else space :: scan fill (.literal quote false) rest
  | .literal quote true, b :: rest =>
    if b = backslash then
      match rest with
      | [] => [space]
      | c :: after => space :: blank c :: scan fill (.literal quote true) after
    else if b = quote then
      match rest with
      | c :: d :: after =>
        if c = quote ∧ d = quote then b :: c :: d :: scan fill .code after
        else space :: scan fill (.literal quote true) (c :: d :: after)
      | [c] => space :: scan fill (.literal quote true) [c]
      | [] => [space]
    else blank b :: scan fill (.literal quote true) rest

/-! ### Masked text -/

/-- The masked bytes of a text's UTF-8 form. -/
def maskBytes (bs : List UInt8) : List UInt8 :=
  scan space .code bs

/-- A text with its comments and the insides of its literals turned to spaces, one a byte. Quotes
    and line feeds stay, and so does every byte offset. -/
def mask (code : String) : String :=
  Text.ofBytes (maskBytes (Text.bytes code))

/-- The byte that marks line comments when only they are looked for. -/
def commentMark : UInt8 := 0x01

/-- What follows the last line feed. -/
def lastLine (bs : List UInt8) : List UInt8 :=
  (bs.reverse.takeWhile (· ≠ lineFeed)).reverse

/-- Whether text put after `code` on its last line would be part of a line comment. A mark byte
    that the code itself has on that line counts as one. -/
def endsInLineComment (code : String) : Bool :=
  (lastLine (scan commentMark .code (Text.bytes code))).contains commentMark

/-- Opening less closing braces outside comments and literals. -/
def braceDelta (code : String) : Int :=
  let masked := maskBytes (Text.bytes code)
  (masked.count 0x7B : Int) - masked.count 0x7D

end TemplateWeaver.Source
