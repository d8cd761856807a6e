import TemplateWeaver.Code.Block

/-!
Buffers of code. A buffer is a growing list of segments, each a line or another buffer embedded at
that place. An embedded buffer stays live: what is added to it later shows up where it is embedded.
So a buffer is known by its number in a store, and its content is worked out when it is asked for.
-/
namespace TemplateWeaver.Code

/-- The number of a buffer in a store. -/
structure BufferId where
  index : Nat
  deriving DecidableEq, Repr

structure Store where
  buffers : List (List (Segment BufferId)) := []
  deriving DecidableEq, Repr

namespace Store

def size (s : Store) : Nat :=
  s.buffers.length

/-- A new empty buffer. -/
def allocate (s : Store) : BufferId × Store :=
  (⟨s.size⟩, { buffers := s.buffers ++ [[]] })

def segments (s : Store) (b : BufferId) : List (Segment BufferId) :=
  s.buffers[b.index]?.getD []

/-- Adds segments at the end of a buffer. -/
def extend (s : Store) (b : BufferId) (added : List (Segment BufferId)) : Store :=
  { buffers := s.buffers.modify b.index (· ++ added) }

/-- Embeds a buffer at the end of another, but not at its own. This is the checked build: a debug
    assertion refuses the buffer itself, and a release build stores it. -/
def embed? (s : Store) (b other : BufferId) : Option Store :=
  if b = other then none else some (s.extend b [.embed other])

theorem segments_extend_self (s : Store) (b : BufferId) (added : List (Segment BufferId))
    (inside : b.index < s.size) : (s.extend b added).segments b = s.segments b ++ added := by
  simp only [size] at inside
  simp [segments, extend, List.getElem?_eq_getElem inside]

theorem segments_extend_of_ne (s : Store) {b c : BufferId} (added : List (Segment BufferId)) (other : b ≠ c) :
    (s.extend b added).segments c = s.segments c := by
  have apart : b.index ≠ c.index := fun same => other (by cases b; cases c; simp_all)
  simp [segments, extend, apart]

@[simp] theorem size_extend (s : Store) (b : BufferId) (added : List (Segment BufferId)) :
    (s.extend b added).size = s.size := by
  simp [size, extend]

@[simp] theorem segments_allocate (s : Store) (b : BufferId) :
    s.allocate.2.segments b = s.segments b := by
  simp only [segments, allocate]
  rcases Nat.lt_trichotomy b.index s.buffers.length with old | new | beyond
  · rw [List.getElem?_append_left old]
  · rw [new, List.getElem?_append_right (Nat.le_refl _)]; simp
  · rw [List.getElem?_eq_none (by simp; omega), List.getElem?_eq_none (by omega)]

/-! ### Content -/

/-- The blocks of a buffer, following embedded buffers `fuel` deep. -/
def unroll (s : Store) : Nat → BufferId → List Block
  | 0, _ => []
  | fuel + 1, b => expandWith (s.unroll fuel) (s.segments b)

/-- The content of a buffer as it stands. A chain of embeddings that does not come back to where it
    has been is no longer than the store is large. -/
def content (s : Store) (b : BufferId) : List Block :=
  s.unroll s.size b

/-- The text of a buffer, indented by `level` levels and more as its braces ask. -/
def render (s : Store) (level : Nat) (b : BufferId) : String :=
  Block.layoutAll level 0 (s.content b)

def lineCount (s : Store) (b : BufferId) : Nat :=
  Block.lineCountAll (s.content b)

/-- Whether neither the buffer nor any that it embeds holds a line. -/
def isEmpty (s : Store) (b : BufferId) : Bool :=
  Block.isEmptyAll (s.content b)

end Store

end TemplateWeaver.Code
