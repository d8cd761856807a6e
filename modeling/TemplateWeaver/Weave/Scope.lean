import TemplateWeaver.Code.Store

/-!
Where the code of an element goes. Generated code has four sections; a scope gives a buffer for each
of them, the variable from which elements are found, and the counter that makes new names. The
buffers and counters themselves stand in a workspace, so that scopes can share them.
-/
namespace TemplateWeaver

open Code (BufferId Segment Store)

inductive Section where
  | declarations
  | created
  | mounted
  | unmounted
  deriving DecidableEq, Repr

namespace Section

def all : List Section :=
  [.declarations, .created, .mounted, .unmounted]

def name : Section → String
  | .declarations => "declarations"
  | .created => "created"
  | .mounted => "mounted"
  | .unmounted => "unmounted"

def ofName? (name : String) : Option Section :=
  all.find? fun part => part.name == name

end Section

/-- The number of a counter in a workspace. -/
structure CounterId where
  index : Nat
  deriving DecidableEq, Repr

structure Workspace where
  store : Store := {}
  counters : List Nat := []
  deriving DecidableEq, Repr

structure Scope where
  buffers : Section → BufferId
  /-- The variable from which elements are found, if it is not the root of the unit. -/
  queryRoot : Option String
  counter : CounterId

namespace Workspace

def allocate (w : Workspace) : BufferId × Workspace :=
  let (b, store) := w.store.allocate
  (b, { w with store })

def extend (w : Workspace) (b : BufferId) (added : List (Segment BufferId)) : Workspace :=
  { w with store := w.store.extend b added }

/-- Adds code to every section of a scope. -/
def write (w : Workspace) (scope : Scope) (code : Section → List (Segment BufferId)) : Workspace :=
  Section.all.foldl (fun w part => w.extend (scope.buffers part) (code part)) w

/-- The number that a counter gives next. -/
def peek (w : Workspace) (c : CounterId) : Nat :=
  w.counters[c.index]?.getD 0

/-- Takes a number from a counter. -/
def nextId (w : Workspace) (c : CounterId) : Nat × Workspace :=
  (w.peek c, { w with counters := w.counters.modify c.index (· + 1) })

/-- A name that no other call makes with the same counter and stem. -/
def newName (w : Workspace) (c : CounterId) (stem : String) : String × Workspace :=
  let (id, w) := w.nextId c
  (stem ++ toString id, w)

/-- New buffers for all sections. -/
def allocateSections (w : Workspace) : (Section → BufferId) × Workspace :=
  let (declarations, w) := w.allocate
  let (created, w) := w.allocate
  let (mounted, w) := w.allocate
  let (unmounted, w) := w.allocate
  (fun
    | .declarations => declarations
    | .created => created
    | .mounted => mounted
    | .unmounted => unmounted, w)

/-- A scope of its own: new buffers and a new counter. -/
def newScope (w : Workspace) (queryRoot : Option String) : Scope × Workspace :=
  let (buffers, w) := w.allocateSections
  ({ buffers, queryRoot, counter := ⟨w.counters.length⟩ },
    { w with counters := w.counters ++ [0] })

/-- A view of a scope: it shares the counter and the given sections, and has new buffers for the
    others. -/
def viewScope (w : Workspace) (scope : Scope) (shared : List Section) (queryRoot : Option String) :
    Scope × Workspace :=
  let (fresh, w) := w.allocateSections
  ({ scope with
      buffers := fun part => if part ∈ shared then scope.buffers part else fresh part
      queryRoot }, w)

def render (w : Workspace) (level : Nat) (scope : Scope) (part : Section) : String :=
  w.store.render level (scope.buffers part)

def lineCount (w : Workspace) (scope : Scope) (part : Section) : Nat :=
  w.store.lineCount (scope.buffers part)

end Workspace

end TemplateWeaver
