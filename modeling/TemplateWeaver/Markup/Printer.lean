import TemplateWeaver.Markup.Node
import TemplateWeaver.Markup.Tag

/-!
Markup written out. The id of the metadata takes the place of a static id or comes last; texts of
blank characters are left out unless they are to be kept.
-/
namespace TemplateWeaver

/-- How a character stands in an attribute value. -/
def escapeAttributeChar : Char → List Char
  | '&' => "&amp;".toList
  | '"' => "&quot;".toList
  | c => [c]

/-- An attribute with its value between double quotes. -/
def attributeMarkup (name value : String) : String :=
  name ++ "=\"" ++ String.ofList (value.toList.flatMap escapeAttributeChar) ++ "\""

namespace Head

/-- The attributes as they are written, with the id of the metadata in place. -/
def writtenAttrs (h : Head) : List (String × String) :=
  match h.infoId? with
  | none => h.attrs.entries
  | some id => (h.attrs.insert "id" id).entries

/-- The attributes with a space before each. -/
def attrsMarkup (h : Head) : String :=
  String.join (h.writtenAttrs.map fun attr => " " ++ attributeMarkup attr.1 attr.2)

end Head

/-- A text, or nothing for a blank text that is not kept. -/
def textMarkup (keepBlank : Bool) (value : String) : String :=
  if !keepBlank && Text.allBlank value then "" else value

mutual
def Node.markup (keepBlank : Bool) : Node → String
  | .element head children =>
    if Tag.isVoid head.tag then "<" ++ head.tag ++ head.attrsMarkup ++ ">"
    else
      "<" ++ head.tag ++ head.attrsMarkup ++ ">" ++ nodesMarkup keepBlank children
        ++ "</" ++ head.tag ++ ">"
  | .text value => textMarkup keepBlank value
/-- The markup of a list of nodes. -/
def nodesMarkup (keepBlank : Bool) : List Node → String
  | [] => ""
  | node :: rest => Node.markup keepBlank node ++ nodesMarkup keepBlank rest
end

end TemplateWeaver
