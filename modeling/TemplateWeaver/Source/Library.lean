import TemplateWeaver.Source.Mask
import TemplateWeaver.Text.Blank
import TemplateWeaver.Text.WordChar

/-!
Library directives: taking the leading `library` directive out of a source text, and naming a
library after a file. Only code counts: the directive is looked for in the masked text and cut out
of the text itself.
-/
namespace TemplateWeaver.Source

/-! ### Reading a directive -/

def isTabOrSpace (c : Char) : Bool :=
  c == ' ' || c == '\t'

/-- Whether a text begins with a directive: `library`, a dotted name and a semicolon, with spaces
    and tabs between them. -/
def startsWithDirective (cs : List Char) : Bool :=
  match Text.dropWord? "library".toList (cs.dropWhile isTabOrSpace) with
  | some (c :: rest) =>
    isTabOrSpace c &&
      match rest.dropWhile isTabOrSpace with
      | d :: name =>
        (d.isAlpha || d == '_') &&
          ((name.dropWhile fun e => Text.isWordChar e || e == '.').dropWhile isTabOrSpace).head?
            == some ';'
      | [] => false
  | _ => false

/-- The text of the first line, its line feed included. -/
def firstLine : List Char → List Char
  | [] => []
  | '\n' :: _ => ['\n']
  | c :: rest => c :: firstLine rest

/-- The byte offsets of the first line that begins with a directive; `start` is the offset of the
    text and `fresh` says that a line begins here. -/
def findDirective (start : Nat) (fresh : Bool) : List Char → Option (Nat × Nat)
  | [] => none
  | c :: rest =>
    if fresh && startsWithDirective (c :: rest) then
      some (start, start + Text.byteSize (firstLine (c :: rest)))
    else findDirective (start + c.utf8Size) (c == '\n') rest

/-- The offsets of the leading directive in masked text: the first line that begins with one, if
    nothing but blank characters stands before it. -/
def directiveSpan? (masked : String) : Option (Nat × Nat) :=
  match findDirective 0 true masked.toList with
  | some (start, stop) =>
    if Text.allBlank (Text.takeBytes masked start) then some (start, stop) else none
  | none => none

/-- The leading library directive, trimmed, and the text without its line. -/
def splitLibrary (code : String) : Option String × String :=
  match directiveSpan? (mask code) with
  | some (start, stop) =>
    (some (Text.trim (Text.dropBytes (Text.takeBytes code stop) start)),
      Text.takeBytes code start ++ Text.dropBytes code stop)
  | none => (none, code)

/-! ### Naming a library -/

/-- A letter, a digit or an underscore, in ASCII. -/
def isPlainNameChar (c : Char) : Bool :=
  c.isAlphanum || c == '_'

/-- Each maximal run of other characters becomes one underscore; `gap` says that one is open. -/
def joinNameChars (gap : Bool) : List Char → List Char
  | [] => []
  | c :: rest =>
    if isPlainNameChar c then c.toLower :: joinNameChars false rest
    else if gap then joinNameChars true rest
    else '_' :: joinNameChars true rest

/-- The part of a file name after its last separator and before the first dot that follows. -/
def fileStem (cs : List Char) : List Char :=
  ((cs.reverse.takeWhile fun c => c != '/' && c != '\\').reverse).takeWhile (· != '.')

/-- A library name in lower-case letters, digits and underscores that does not begin with a digit. -/
def libraryName (fileName : String) : String :=
  match joinNameChars false (fileStem fileName.toList) with
  | [] => "main"
  | c :: rest => String.ofList (if c.isDigit then '_' :: c :: rest else c :: rest)

/-- The directive of a unit: its own if it has one, else one for `name`, else one for the file. -/
def libraryDirective (existing name : Option String) (fileName : String) : String :=
  match existing with
  | some directive => directive
  | none => "library " ++ name.getD (libraryName fileName) ++ ";"

end TemplateWeaver.Source
