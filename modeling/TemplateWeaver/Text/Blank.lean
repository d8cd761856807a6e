/-!
Blank characters: the code points of the Unicode property White_Space. Trimming a text, telling a
blank text and cutting a text into words all go by them. A text is cut into lines at its line feeds;
one carriage return before a line feed belongs to the line end, and a line end that finishes the text
starts no further line.
-/
namespace TemplateWeaver.Text

/-- Whether `n` lies in one of the ascending ranges, whose ends are included. Character properties are
    tabulated so. -/
def inRanges (n : Nat) : List (Nat × Nat) → Bool
  | [] => false
  | (low, high) :: rest => if n < low then false else n ≤ high || inRanges n rest

/-- The code points of White_Space. -/
def blankRanges : List (Nat × Nat) :=
  [(0x09, 0x0D), (0x20, 0x20), (0x85, 0x85), (0xA0, 0xA0), (0x1680, 0x1680), (0x2000, 0x200A),
   (0x2028, 0x2029), (0x202F, 0x202F), (0x205F, 0x205F), (0x3000, 0x3000)]

def isBlank (c : Char) : Bool :=
  inRanges c.toNat blankRanges

/-! ### Trimming -/

def trimFront (cs : List Char) : List Char :=
  cs.dropWhile isBlank

def trimBack (cs : List Char) : List Char :=
  (cs.reverse.dropWhile isBlank).reverse

/-- Without the blank characters at either end. -/
def trimChars (cs : List Char) : List Char :=
  trimBack (trimFront cs)

def trim (s : String) : String :=
  String.ofList (trimChars s.toList)

/-- Nothing but blank characters. -/
def allBlank (s : String) : Bool :=
  s.toList.all isBlank

/-! ### Words -/

/-- The maximal runs of characters that are not blank; `word` is the run read so far, last
    character first. -/
def wordsFrom (word : List Char) : List Char → List (List Char)
  | [] => if word.isEmpty then [] else [word.reverse]
  | c :: rest =>
    if isBlank c then
      if word.isEmpty then wordsFrom [] rest else word.reverse :: wordsFrom [] rest
    else wordsFrom (c :: word) rest

def words (s : String) : List String :=
  (wordsFrom [] s.toList).map String.ofList

/-- The words of a text with one space between them, so that it fits on a line. -/
def oneLine (s : String) : String :=
  " ".intercalate (words s)

/-! ### Lines -/

/-- A line that a line feed ends, from its characters in reverse. -/
def endedLine : List Char → List Char
  | '\r' :: reversed => reversed.reverse
  | reversed => reversed.reverse

/-- The lines of a text; `line` is what of the current line has been read, last character first. -/
def linesFrom (line : List Char) : List Char → List (List Char)
  | [] => if line.isEmpty then [] else [line.reverse]
  | '\n' :: rest => endedLine line :: linesFrom [] rest
  | c :: rest => linesFrom (c :: line) rest

def lines (s : String) : List String :=
  (linesFrom [] s.toList).map String.ofList

end TemplateWeaver.Text
