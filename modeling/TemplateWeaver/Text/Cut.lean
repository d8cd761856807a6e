/-!
Cutting a text: behind a word, or at an offset counted in bytes of its UTF-8 form. Offsets are found
in one text and used in another of the same byte length, so they are numbers and not positions of a
text.
-/
namespace TemplateWeaver.Text

/-- The UTF-8 form of a text. -/
def bytes (s : String) : List UInt8 :=
  s.toByteArray.data.toList

/-- The text with this UTF-8 form, and the empty text if there is none. -/
def ofBytes (bs : List UInt8) : String :=
  (String.fromUTF8? ⟨bs.toArray⟩).getD ""

/-- The number of bytes of the UTF-8 form. -/
def byteSize (cs : List Char) : Nat :=
  cs.foldr (fun c size => c.utf8Size + size) 0

/-- The longest front part of at most `k` bytes, and the rest. -/
def cutAt (k : Nat) : List Char → List Char × List Char
  | [] => ([], [])
  | c :: rest =>
    if c.utf8Size ≤ k then
      let (front, back) := cutAt (k - c.utf8Size) rest
      (c :: front, back)
    else ([], c :: rest)

/-- The part of a text before byte `k`. -/
def takeBytes (s : String) (k : Nat) : String :=
  String.ofList (cutAt k s.toList).1

/-- The part of a text from byte `k` on. -/
def dropBytes (s : String) (k : Nat) : String :=
  String.ofList (cutAt k s.toList).2

/-- What follows `word` at the beginning of a text. -/
def dropWord? : List Char → List Char → Option (List Char)
  | [], cs => some cs
  | _ :: _, [] => none
  | w :: word, c :: cs => if w = c then dropWord? word cs else none

end TemplateWeaver.Text
