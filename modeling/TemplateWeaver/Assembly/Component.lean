import TemplateWeaver.Assembly.Diagnostic
import TemplateWeaver.Assembly.Preamble
import TemplateWeaver.Markup.Printer
import TemplateWeaver.Source.ClassHead
import TemplateWeaver.Weave.Template

/-!
Components: the code of a template becomes members of the class that the user wrote for it. They go
right behind the opening brace of that class; the rest of the user's code stays as it is.
-/
namespace TemplateWeaver

open Code (BufferId Segment)

structure Component where
  fileName : String
  /-- The class of the component in the user's code. -/
  className : String
  userCode : String := ""
  template : Element
  /-- The component renders into a shadow root and not into its host. -/
  shadowRoot : Bool := false
  /-- The markup of the template is the initial content of the root. -/
  inlineMarkup : Bool := false
  references : List ComponentUse := []

/-- The scope that the tree of a unit is woven in. -/
abbrev unitScope : Scope :=
  (({} : Workspace).newScope none).1

/-- That scope is new, but for code in the section of what is created. -/
def begun (rootCode : List (Segment BufferId)) : Workspace :=
  (({} : Workspace).newScope none).2.extend (unitScope.buffers .created) rootCode

/-- The line that gives the root of a unit its markup. -/
def markupLine (config : Config) (nodes : List Node) : String :=
  Names.root ++ ".innerHTML = " ++ Source.literal (nodesMarkup config.keepBlank nodes) ++ ";"

namespace Component

/-- The code ahead of all that the template creates. -/
def rootCode (u : Component) (config : Config) : List (Segment BufferId) :=
  Code.lines
    ("var " ++ Names.root ++ " = " ++ (if u.shadowRoot then "createShadowRoot()" else "this") ++ ";")
    ++ if u.inlineMarkup then Code.lines (markupLine config u.template.children) else []

/-- The members of the class, from the sections of a scope. -/
def memberCode (scope : Scope) : List (Segment BufferId) :=
  let method (hook : String) (part : Section) : List (Segment BufferId) :=
    Code.lines ("void " ++ hook ++ "() \x7b") ++ [.embed (scope.buffers part)]
      ++ Code.lines "\x7d"
  Code.lines "// Generated from the template." ++ [.embed (scope.buffers .declarations)]
    ++ method Names.createdHook .created
    ++ method Names.mountedHook .mounted
    ++ method Names.unmountedHook .unmounted

def emptyRootWarning (u : Component) : Diagnostic where
  severity := .warning
  message :=
    u.className ++ " renders into an empty shadow root; its template elements will not be found "
      ++ "unless the markup is inlined"
  file := some u.fileName

def missingClassError (u : Component) : Diagnostic where
  severity := .error
  message :=
    "please provide a class definition for " ++ u.className ++ ":\n  class " ++ u.className
      ++ " extends WebComponent \x7b\n    ...\n  \x7d"
  file := some u.fileName

/-- The code of a component, and the diagnostics `log` with those of the unit behind them. Without
    a class for the component its code is the user's as it is. -/
def assemble (u : Component) (config : Config) (log : List Diagnostic) :
    Except Fault String × List Diagnostic :=
  match u.template.weave unitScope (begun (u.rootCode config)) with
  | (_, some fault) => (.error fault, log)
  | (w, none) =>
    let log :=
      if u.shadowRoot && !u.inlineMarkup && !w.store.isEmpty (unitScope.buffers .declarations) then
        log ++ [u.emptyRootWarning]
      else log
    let (directive, code) := Source.splitLibrary u.userCode
    match Source.classBodyOffset? u.className (Source.mask code) with
    | none => (.ok u.userCode, log ++ [u.missingClassError])
    | some offset =>
      let library := Source.libraryDirective directive none u.fileName
      let (members, w) := w.allocate
      let w := w.extend members (memberCode unitScope)
      (.ok (preamble config u.fileName library u.references ++ Text.takeBytes code offset ++ "\n"
        ++ w.store.render 1 members ++ Text.dropBytes code offset), log)

end Component

end TemplateWeaver
