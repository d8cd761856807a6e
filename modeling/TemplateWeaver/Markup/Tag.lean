/-!
What tags say: which have no content, and the type of the object that stands for an element at run
time. Tags are compared without regard to the case of ASCII letters.
-/
namespace TemplateWeaver.Tag

def lower (tag : String) : String :=
  String.ofList (tag.toList.map Char.toLower)

def voidTags : List String :=
  ["area", "base", "br", "col", "embed", "hr", "img", "input", "link", "meta", "param", "source",
   "track", "wbr"]

/-- Whether elements with this tag have no content and no end tag. -/
def isVoid (tag : String) : Bool :=
  voidTags.contains (lower tag)

/-- The run-time types of tags that have one of their own. -/
def domTypes : List (String × String) :=
  [("a", "AnchorElement"), ("area", "AreaElement"), ("audio", "AudioElement"),
   ("body", "BodyElement"), ("br", "BRElement"), ("button", "ButtonElement"),
   ("canvas", "CanvasElement"), ("div", "DivElement"), ("dl", "DListElement"),
   ("form", "FormElement"), ("h1", "HeadingElement"), ("h2", "HeadingElement"),
   ("h3", "HeadingElement"), ("h4", "HeadingElement"), ("h5", "HeadingElement"),
   ("h6", "HeadingElement"), ("hr", "HRElement"), ("iframe", "IFrameElement"),
   ("img", "ImageElement"), ("input", "InputElement"), ("label", "LabelElement"),
   ("li", "LIElement"), ("ol", "OListElement"), ("option", "OptionElement"),
   ("p", "ParagraphElement"), ("pre", "PreElement"), ("select", "SelectElement"),
   ("span", "SpanElement"), ("table", "TableElement"), ("td", "TableCellElement"),
   ("th", "TableCellElement"), ("textarea", "TextAreaElement"), ("tr", "TableRowElement"),
   ("ul", "UListElement"), ("video", "VideoElement")]

/-- The run-time type of an element with this tag. -/
def domType (tag : String) : String :=
  (domTypes.lookup (lower tag)).getD "Element"

/-- The tag of a component definition inside a page. -/
def definitionTag : String := "element"

/-- Whether elements with this tag define a component. -/
def isDefinition (tag : String) : Bool :=
  lower tag == definitionTag

end TemplateWeaver.Tag
