import TemplateWeaver.Markup.Info
import TemplateWeaver.Source.Literal
import TemplateWeaver.Weave.Names

/-!
Settings that hold for all units, and the preamble that units begin with: the banner, the library
directive and the imports, each group with an empty line behind it.
-/
namespace TemplateWeaver

open Source (literal)

/-! ### Settings -/

/-- An import that every unit has. -/
structure LibraryImport where
  uri : String
  /-- The name under which the library is imported. -/
  name : Option String := none
  deriving DecidableEq, Repr

structure Config where
  /-- Units begin with a note that they are generated. -/
  banner : Bool := true
  imports : List LibraryImport :=
    [{ uri := "dart:html", name := some Names.library },
     { uri := "package:web_components/watcher.dart", name := some Names.library }]
  /-- Blank texts are kept in markup. -/
  keepBlank : Bool := false
  deriving DecidableEq, Repr

/-! ### The preamble -/

def LibraryImport.line (i : LibraryImport) : String :=
  match i.name with
  | some name => "import " ++ literal i.uri ++ " as " ++ name ++ ";"
  | none => "import " ++ literal i.uri ++ ";"

def bannerLines (fileName : String) : List String :=
  ["// Auto-generated from " ++ fileName ++ ".", "// DO NOT EDIT.", ""]

/-- One import for each file that is referred to, in the order of first use. -/
def referenceLines (references : List ComponentUse) : List String :=
  (references.map ComponentUse.file).eraseDups.map fun file => "import " ++ literal file ++ ";"

def preamble (config : Config) (fileName library : String) (references : List ComponentUse) :
    String :=
  "\n".intercalate
    ((if config.banner then bannerLines fileName else [])
      ++ [library, ""]
      ++ config.imports.map LibraryImport.line
      ++ referenceLines references
      ++ [""])
    ++ "\n"

end TemplateWeaver
