import TemplateWeaver.Assembly.Unit
import TemplateWeaver.Markup.Codec

/-!
Units, settings and diagnostics as JSON.
-/
namespace TemplateWeaver

open Json

/-! ### Settings -/

namespace LibraryImport

def toJson (i : LibraryImport) : Json :=
  .ofFields [("uri", .ofString i.uri), ("prefix", nullableText i.name)]

def read : Reader LibraryImport := fun room held json => do
  let r ← readRecord ["uri", "prefix"] room held json
  return { uri := ← r.required "uri" readText
           name := ← r.nullable "prefix" readText }

end LibraryImport

namespace Config

def toJson (c : Config) : Json :=
  .ofFields
    [("emitHeader", .bool c.banner),
     ("runtimeImports", .array (c.imports.map LibraryImport.toJson)),
     ("preserveWhitespace", .bool c.keepBlank)]

def read : Reader Config := fun room held json => do
  let r ← readRecord ["emitHeader", "runtimeImports", "preserveWhitespace"] room held json
  let default : Config := {}
  return { banner := ← r.optional "emitHeader" default.banner readFlag
           imports := ← r.optional "runtimeImports" default.imports (readList LibraryImport.read)
           keepBlank := ← r.optional "preserveWhitespace" default.keepBlank readFlag }

end Config

/-! ### Units -/

namespace Component

def fields (u : Component) : List (String × Json) :=
  [("fileName", .ofString u.fileName), ("constructor", .ofString u.className),
   ("userCode", .ofString u.userCode), ("template", u.template.toJson),
   ("shadowDom", .bool u.shadowRoot), ("inlineMarkup", .bool u.inlineMarkup),
   ("references", .array (u.references.map ComponentUse.toJson))]

def toJson (u : Component) : Json :=
  .ofFields u.fields

def fieldNames : List String :=
  ["fileName", "constructor", "userCode", "template", "shadowDom", "inlineMarkup", "references"]

def read : Reader Component := fun room held json => do
  let r ← readRecord fieldNames room held json
  return { fileName := ← r.required "fileName" readText
           className := ← r.required "constructor" readText
           userCode := ← r.optional "userCode" "" readText
           template := ← r.required "template" Element.read
           shadowRoot := ← r.optional "shadowDom" false readFlag
           inlineMarkup := ← r.optional "inlineMarkup" false readFlag
           references := ← r.optional "references" [] (readList ComponentUse.read) }

end Component

namespace Page

def fields (u : Page) : List (String × Json) :=
  [("fileName", .ofString u.fileName), ("libraryName", nullableText u.libraryName),
   ("userCode", .ofString u.userCode), ("body", u.body.toJson),
   ("references", .array (u.references.map ComponentUse.toJson))]

def toJson (u : Page) : Json :=
  .ofFields u.fields

def read : Reader Page := fun room held json => do
  let r ← readRecord ["fileName", "libraryName", "userCode", "body", "references"] room held json
  return { fileName := ← r.required "fileName" readText
           libraryName := ← r.nullable "libraryName" readText
           userCode := ← r.optional "userCode" "" readText
           body := ← r.required "body" Element.read
           references := ← r.optional "references" [] (readList ComponentUse.read) }

end Page

namespace CompilationUnit

def toJson : CompilationUnit → Json
  | .component unit => .ofFields (("kind", .ofString "component") :: unit.fields)
  | .page unit => .ofFields (("kind", .ofString "document") :: unit.fields)

def read : Reader CompilationUnit :=
  readTagged "kind" ["component", "document"] fun tag room held json =>
    if tag = "component" then (Component.read room held json).map .component
    else (Page.read room held json).map .page

end CompilationUnit

/-- Equal lists but for the order of values. -/
def referencesAgree (a b : List ComponentUse) : Bool :=
  a.length == b.length && (a.zip b).all fun (c, d) => c.agrees d

/-- Equal but for the order in maps. -/
def CompilationUnit.agrees : CompilationUnit → CompilationUnit → Bool
  | .component u, .component v =>
    u.fileName == v.fileName && u.className == v.className && u.userCode == v.userCode
      && u.template.agrees v.template && u.shadowRoot == v.shadowRoot
      && u.inlineMarkup == v.inlineMarkup && referencesAgree u.references v.references
  | .page u, .page v =>
    u.fileName == v.fileName && u.libraryName == v.libraryName && u.userCode == v.userCode
      && u.body.agrees v.body && referencesAgree u.references v.references
  | _, _ => false

/-! ### Diagnostics -/

namespace Severity

def toJson (s : Severity) : Json :=
  .ofString s.text

def ofText? (name : String) : Option Severity :=
  [Severity.error, .warning].find? fun s => s.text == name

/-- The name of a severity, or an object with that name and null as its only member. -/
def read : Reader Severity
  | _, _, .text (some name) => ofText? name
  | _ + 1, _, .object [(some name, .null)] => ofText? name
  | _, _, _ => none

end Severity

namespace Diagnostic

def toJson (d : Diagnostic) : Json :=
  .ofFields
    [("severity", d.severity.toJson), ("message", .ofString d.message),
     ("file", nullableText d.file)]

/-- Written as an array, a diagnostic gives its file even if that is null. -/
def read : Reader Diagnostic := fun room held json => do
  let r ← readRecord ["severity", "message", "file"] room held json
  return { severity := ← r.required "severity" Severity.read
           message := ← r.required "message" readText
           file := ←
             if r.positional then r.required "file" (readNullable readText)
             else r.nullable "file" readText }

end Diagnostic

end TemplateWeaver
