/-!
Maps from names that remember the order in which the names came. Giving a name a new value keeps
its place. Two maps agree when they hold the same values under the same names, in any order.
-/
namespace TemplateWeaver

structure OrderedMap (α : Type) where
  entries : List (String × α)
  nodup : (entries.map Prod.fst).Nodup := by simp

namespace OrderedMap

variable {α : Type}

def empty : OrderedMap α where
  entries := []

instance : Inhabited (OrderedMap α) := ⟨empty⟩

def isEmpty (m : OrderedMap α) : Bool :=
  m.entries.isEmpty

def keys (m : OrderedMap α) : List String :=
  m.entries.map Prod.fst

def values (m : OrderedMap α) : List α :=
  m.entries.map Prod.snd

def get? (m : OrderedMap α) (key : String) : Option α :=
  m.entries.lookup key

def contains (m : OrderedMap α) (key : String) : Bool :=
  (m.get? key).isSome

/-! ### Insertion -/

/-- Gives the entry of a key a new value where it stands, or adds one at the end. -/
def insertEntry (key : String) (value : α) : List (String × α) → List (String × α)
  | [] => [(key, value)]
  | entry :: rest =>
    if entry.1 = key then (key, value) :: rest else entry :: insertEntry key value rest

theorem keys_insertEntry (key : String) (value : α) (entries : List (String × α)) :
    (insertEntry key value entries).map Prod.fst =
      if key ∈ entries.map Prod.fst then entries.map Prod.fst
      else entries.map Prod.fst ++ [key] := by
  induction entries with
  | nil => simp [insertEntry]
  | cons entry rest ih =>
    by_cases same : entry.1 = key
    · simp [insertEntry, same]
    · have other : ¬ key = entry.1 := fun h => same h.symm
      by_cases later : key ∈ rest.map Prod.fst <;> simp_all [insertEntry]

theorem nodup_insertEntry (key : String) (value : α) {entries : List (String × α)}
    (distinct : (entries.map Prod.fst).Nodup) :
    ((insertEntry key value entries).map Prod.fst).Nodup := by
  rw [keys_insertEntry]
  split
  · exact distinct
  · next absent =>
    refine List.nodup_append.mpr ⟨distinct, by simp, ?_⟩
    intro a member b single equal
    simp only [List.mem_singleton] at single
    subst single equal
    exact absent member

/-- Gives `key` a value; a key that is there keeps its place. -/
def insert (m : OrderedMap α) (key : String) (value : α) : OrderedMap α where
  entries := insertEntry key value m.entries
  nodup := nodup_insertEntry key value m.nodup

/-- The map of a list of pairs: a key has the place of its first pair and the value of its last. -/
def ofList (pairs : List (String × α)) : OrderedMap α :=
  pairs.foldl (fun m pair => m.insert pair.1 pair.2) empty

/-! ### Agreement -/

/-- The same values under the same keys, whatever the order. -/
def agrees (same : α → α → Bool) (m n : OrderedMap α) : Bool :=
  m.entries.length == n.entries.length &&
    m.entries.all fun entry =>
      match n.get? entry.1 with
      | some value => same entry.2 value
      | none => false

end OrderedMap

end TemplateWeaver
