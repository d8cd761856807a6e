import TemplateWeaver.Code.Store

/-!
Sessions on buffers: a run of operations through numbered handles. Several handles may stand for one
buffer, and what is added through one of them is seen through all.
-/
namespace TemplateWeaver.Code

/-- Why an operation is refused. A refused operation changes nothing. -/
inductive Refusal where
  | unknownHandle
  | selfEmbedding
  deriving DecidableEq, Repr

def Refusal.message : Refusal → String
  | .unknownHandle => "no such buffer"
  | .selfEmbedding => "a code buffer cannot embed itself"

structure Session where
  store : Store := {}
  handles : List BufferId := []

/-- An operation. Handles are numbered in the order in which they came to be. -/
inductive Operation where
  /-- A handle to a new buffer. -/
  | create
  /-- One more handle to a buffer. -/
  | share (handle : Nat)
  | append (handle : Nat) (text : String)
  | appendVerbatim (handle : Nat) (text : String)
  | embed (handle other : Nat)
  deriving DecidableEq, Repr

namespace Session

/-- The buffer that a handle stands for. -/
def buffer (s : Session) (handle : Nat) : Except Refusal BufferId :=
  match s.handles[handle]? with
  | some b => .ok b
  | none => .error .unknownHandle

def withHandle (s : Session) (b : BufferId) : Session :=
  { s with handles := s.handles ++ [b] }

def extend (s : Session) (b : BufferId) (added : List (Segment BufferId)) : Session :=
  { s with store := s.store.extend b added }

def apply (s : Session) : Operation → Except Refusal Session
  | .create =>
    let (b, store) := s.store.allocate
    .ok { store, handles := s.handles ++ [b] }
  | .share handle => do
    return s.withHandle (← s.buffer handle)
  | .append handle text => do
    return s.extend (← s.buffer handle) (lines text)
  | .appendVerbatim handle text => do
    return s.extend (← s.buffer handle) (verbatim text)
  | .embed handle other => do
    let b ← s.buffer handle
    let c ← s.buffer other
    match s.store.embed? b c with
    | some store => .ok { s with store }
    | none => .error .selfEmbedding

/-- Applies operations in turn; those that are refused change nothing. -/
def run (s : Session) (operations : List Operation) : Session :=
  operations.foldl (fun s operation => (s.apply operation).toOption.getD s) s

/-- One handle to an empty buffer. -/
def initial : Session :=
  run {} [.create]

end Session

end TemplateWeaver.Code
