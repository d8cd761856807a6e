import TemplateWeaver.Assembly.Component

/-!
Pages: the code of a page's body becomes a program with a function that sets the page up and one
that takes it down. Component definitions in the body are no part of it.
-/
namespace TemplateWeaver

open Code (BufferId Segment)

structure Page where
  fileName : String
  libraryName : Option String := none
  userCode : String := ""
  body : Element
  references : List ComponentUse := []

namespace Page

/-- The code ahead of all that the body creates. -/
def rootCode (config : Config) (body : Element) : List (Segment BufferId) :=
  Code.lines ("var " ++ Names.root ++ " = " ++ Names.library ++ ".document.body;")
    ++ Code.lines (markupLine config body.children)

/-- The program, from the sections of a scope. -/
def programCode (scope : Scope) : List (Segment BufferId) :=
  Code.lines "// Generated from the page template." ++ [.embed (scope.buffers .declarations)]
    ++ Code.lines ("void " ++ Names.initFunction ++ "() \x7b")
    ++ [.embed (scope.buffers .created), .embed (scope.buffers .mounted)]
    ++ Code.lines "\x7d"
    ++ Code.lines ("void " ++ Names.disposeFunction ++ "() \x7b")
    ++ [.embed (scope.buffers .unmounted)]
    ++ Code.lines "\x7d"

/-- The user's code, trimmed and with an empty line behind it, if there is any. -/
def userPart (code : String) : String :=
  let code := Text.trim code
  if code = "" then "" else code ++ "\n\n"

/-- The code of a page. -/
def assemble (u : Page) (config : Config) : Except Fault String :=
  let body := u.body.withoutDefinitions
  match body.weave unitScope (begun (rootCode config body)) with
  | (_, some fault) => .error fault
  | (w, none) =>
    let (directive, code) := Source.splitLibrary u.userCode
    let library := Source.libraryDirective directive u.libraryName u.fileName
    let (program, w) := w.allocate
    let w := w.extend program (programCode unitScope)
    .ok (preamble config u.fileName library u.references ++ userPart code
      ++ w.store.render 0 program)

end Page

end TemplateWeaver
