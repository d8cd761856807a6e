import TemplateWeaver.Weave.Template

/-!
Sessions on scopes: a run of operations on numbered scopes of one workspace. Scopes that come from
one another share a counter, and buffers as far as the operation says.
-/
namespace TemplateWeaver.Weave

/-- Why an operation is refused. A refused operation changes nothing. -/
inductive Refusal where
  | unknownScope
  | selfEmbedding
  deriving DecidableEq, Repr

def Refusal.message : Refusal → String
  | .unknownScope => "no such context"
  | .selfEmbedding => "a code buffer cannot embed itself"

structure Session where
  workspace : Workspace := {}
  scopes : List Scope := []

/-- An operation. Scopes are numbered in the order in which they came to be. -/
inductive Operation where
  /-- A scope of its own. -/
  | create
  /-- The same scope under one more number. -/
  | share (scope : Nat)
  | view (scope : Nat) (shared : List Section) (queryRoot : Option String)
  | nextId (scope : Nat)
  | newName (scope : Nat) (stem : String)
  | append (scope : Nat) (part : Section) (text : String)
  /-- Embeds a section of `source` in one of `scope`. -/
  | splice (scope : Nat) (part : Section) (source : Nat) (sourcePart : Section)
  | weave (scope : Nat) (element : Element)

/-- What an operation answers. -/
inductive Answer where
  | done
  | id (id : Nat)
  | name (name : String)
  | woven (fault : Option Fault)
  deriving DecidableEq, Repr

namespace Session

def scope (s : Session) (number : Nat) : Except Refusal Scope :=
  match s.scopes[number]? with
  | some scope => .ok scope
  | none => .error .unknownScope

def withScope (s : Session) (added : Scope × Workspace) : Session :=
  { workspace := added.2, scopes := s.scopes ++ [added.1] }

def apply (s : Session) : Operation → Except Refusal (Answer × Session)
  | .create => .ok (.done, s.withScope (s.workspace.newScope none))
  | .share number => do
    return (.done, s.withScope (← s.scope number, s.workspace))
  | .view number shared queryRoot => do
    return (.done, s.withScope (s.workspace.viewScope (← s.scope number) shared queryRoot))
  | .nextId number => do
    let (id, workspace) := s.workspace.nextId (← s.scope number).counter
    return (.id id, { s with workspace })
  | .newName number stem => do
    let (name, workspace) := s.workspace.newName (← s.scope number).counter stem
    return (.name name, { s with workspace })
  | .append number part text => do
    let workspace := s.workspace.extend ((← s.scope number).buffers part) (Code.lines text)
    return (.done, { s with workspace })
  | .splice number part source sourcePart => do
    let target := (← s.scope number).buffers part
    let embedded := (← s.scope source).buffers sourcePart
    match s.workspace.store.embed? target embedded with
    | some store => return (.done, { s with workspace := { s.workspace with store } })
    | none => .error .selfEmbedding
  | .weave number element => do
    let (workspace, fault) := element.weave (← s.scope number) s.workspace
    return (.woven fault, { s with workspace })

/-- A session after one operation; a refused one changes nothing. -/
def step (s : Session) (operation : Operation) : Session :=
  ((s.apply operation).toOption.map Prod.snd).getD s

/-- Applies operations in turn. -/
def run (s : Session) (operations : List Operation) : Session :=
  operations.foldl step s

/-- One scope of its own. -/
def initial : Session :=
  ({} : Session).withScope (({} : Workspace).newScope none)

end Session

end TemplateWeaver.Weave
