import Mathlib.Data.List.Induction
import Mathlib.Data.List.Perm.Basic
import TemplateWeaver.OrderedMap

/-!
Maps in the order of their names. A name that is there keeps its place when it is given a value (`insertEntry_of_mem`),
and a new one comes last (`insertEntry_of_notMem`). So in a map made of pairs the names come in the order of their
first pairs (`keys_ofList`), each with the value of its last (`get?_ofList`), and the entries of a map make it again
(`ofList_entries`).
-/
namespace TemplateWeaver.OrderedMap

variable {α : Type} {key : String} {value : α} {entries others : List (String × α)}

/-! ### Entries -/

theorem lookup_cons_eq_ite (key : String) (entry : String × α) (rest : List (String × α)) :
    (entry :: rest).lookup key = if key = entry.1 then some entry.2 else rest.lookup key := by
  rw [List.lookup_cons]
  by_cases same : key = entry.1
  · rw [if_pos same, same, beq_self_eq_true]
  · rw [if_neg same, beq_false_of_ne same]

theorem mem_of_lookup (found : entries.lookup key = some value) : (key, value) ∈ entries := by
  obtain ⟨front, back, rfl, -⟩ := List.lookup_eq_some_iff.mp found
  simp

theorem lookup_eq_some_iff_mem (distinct : (entries.map Prod.fst).Nodup) :
    entries.lookup key = some value ↔ (key, value) ∈ entries := by
  refine ⟨mem_of_lookup, fun member => ?_⟩
  obtain ⟨front, back, rfl⟩ := List.append_of_mem member
  refine List.lookup_eq_some_iff.mpr ⟨front, back, rfl, fun entry earlier => ?_⟩
  rw [List.map_append, List.map_cons] at distinct
  have apart := (List.nodup_append.mp distinct).2.2 entry.1 (List.mem_map_of_mem earlier) key List.mem_cons_self
  exact bne_iff_ne.mpr (Ne.symm apart)

theorem lookup_perm (distinct : (entries.map Prod.fst).Nodup) (moved : entries.Perm others) (key : String) :
    entries.lookup key = others.lookup key := by
  have distinct' : (others.map Prod.fst).Nodup := (moved.map Prod.fst).nodup_iff.mp distinct
  ext value
  rw [lookup_eq_some_iff_mem distinct, lookup_eq_some_iff_mem distinct', moved.mem_iff]

theorem contains_iff {m : OrderedMap α} : m.contains key = true ↔ key ∈ m.entries.map Prod.fst := by
  rw [contains, get?, Option.isSome_iff_ne_none, ne_eq, List.lookup_eq_none_iff]
  constructor
  · intro given
    by_contra absent
    refine given fun entry member => bne_iff_ne.mpr ?_
    rintro rfl
    exact absent (List.mem_map_of_mem member)
  · intro member others
    obtain ⟨entry, inside, rfl⟩ := List.mem_map.mp member
    exact bne_iff_ne.mp (others entry inside) rfl

/-! ### Insertion -/

theorem insertEntry_of_notMem (absent : key ∉ entries.map Prod.fst) (value : α) :
    insertEntry key value entries = entries ++ [(key, value)] := by
  induction entries with
  | nil => rfl
  | cons entry rest ih =>
    simp only [List.map_cons, List.mem_cons, not_or] at absent
    rw [insertEntry, if_neg (Ne.symm absent.1), ih absent.2]
    rfl

theorem insertEntry_of_lookup (found : entries.lookup key = some value) : insertEntry key value entries = entries := by
  induction entries with
  | nil => cases found
  | cons entry rest ih =>
    rw [lookup_cons_eq_ite] at found
    rw [insertEntry]
    split
    · rename_i same
      subst same
      rw [if_pos rfl] at found
      cases found
      rfl
    · rename_i other
      rw [if_neg (Ne.symm other)] at found
      rw [ih found]

theorem insertEntry_of_mem (distinct : (entries.map Prod.fst).Nodup) (member : key ∈ entries.map Prod.fst)
    (value : α) :
    insertEntry key value entries = entries.map fun entry => if entry.1 = key then (key, value) else entry := by
  induction entries with
  | nil => cases member
  | cons entry rest ih =>
    rw [List.map_cons, List.nodup_cons] at distinct
    rw [insertEntry, List.map_cons]
    split
    · rename_i same
      -- The key stands nowhere else.
      have others : ∀ other ∈ rest, (if other.1 = key then (key, value) else other) = other := by
        intro other later
        have apart : ¬ other.1 = key := by
          intro again
          apply distinct.1
          rw [same, ← again]
          exact List.mem_map_of_mem later
        rw [if_neg apart]
      rw [List.map_congr_left others, List.map_id']
    · rename_i other
      rw [ih distinct.2 ((List.mem_cons.mp member).resolve_left (Ne.symm other))]

theorem lookup_insertEntry (key : String) (value : α) (entries : List (String × α)) (wanted : String) :
    (insertEntry key value entries).lookup wanted = if wanted = key then some value else entries.lookup wanted := by
  induction entries with
  | nil => rw [insertEntry, lookup_cons_eq_ite]
  | cons entry rest ih =>
    rw [insertEntry, lookup_cons_eq_ite]
    split
    · rename_i here
      rw [lookup_cons_eq_ite, here]
      by_cases same : wanted = key <;> simp [same]
    · rename_i other
      rw [lookup_cons_eq_ite, ih]
      by_cases first : wanted = entry.1
      · rw [if_pos first, if_neg (first ▸ other), if_pos first]
      · rw [if_neg first, if_neg first]

theorem mem_insertEntry (key : String) (value : α) (entries : List (String × α)) :
    (key, value) ∈ insertEntry key value entries :=
  mem_of_lookup (by rw [lookup_insertEntry, if_pos rfl])

/-! ### Maps from pairs -/

theorem entries_foldl_insert (m : OrderedMap α) {pairs : List (String × α)}
    (distinct : ((m.entries ++ pairs).map Prod.fst).Nodup) :
    (pairs.foldl (fun m pair => m.insert pair.1 pair.2) m).entries = m.entries ++ pairs := by
  induction pairs generalizing m with
  | nil => simp
  | cons pair pairs ih =>
    have absent : pair.1 ∉ m.entries.map Prod.fst := by
      intro member
      rw [List.map_append, List.map_cons] at distinct
      exact (List.nodup_append.mp distinct).2.2 _ member _ (List.mem_cons_self ..) rfl
    have added : (m.insert pair.1 pair.2).entries = m.entries ++ [pair] := insertEntry_of_notMem absent pair.2
    rw [List.foldl_cons, ih, added, List.append_assoc, List.singleton_append]
    rwa [added, List.append_assoc, List.singleton_append]

/-- A map is made again from its entries, in their order. -/
theorem ofList_entries (m : OrderedMap α) : ofList m.entries = m := by
  have entries : (ofList m.entries).entries = m.entries := entries_foldl_insert empty m.nodup
  cases m
  cases found : ofList _
  simp_all

theorem ofList_concat (pairs : List (String × α)) (pair : String × α) :
    ofList (pairs ++ [pair]) = (ofList pairs).insert pair.1 pair.2 := by
  rw [ofList, List.foldl_append]
  rfl

/-- The names of a map come in the order of their first pairs. -/
theorem keys_ofList (pairs : List (String × α)) : (ofList pairs).keys = (pairs.map Prod.fst).eraseDups := by
  induction pairs using List.reverseRecOn with
  | nil => rfl
  | append_singleton pairs pair ih =>
    have step : (ofList (pairs ++ [pair])).keys =
        if pair.1 ∈ (ofList pairs).keys then (ofList pairs).keys else (ofList pairs).keys ++ [pair.1] := by
      rw [ofList_concat]
      exact keys_insertEntry pair.1 pair.2 (ofList pairs).entries
    rw [step, ih, List.map_append, List.eraseDups_append]
    by_cases given : pair.1 ∈ pairs.map Prod.fst
    · rw [if_pos (List.mem_eraseDups.mpr given)]
      simp [List.removeAll, given]
    · rw [if_neg (mt List.mem_eraseDups.mp given)]
      simp [List.removeAll, List.eraseDups_cons, given]

/-- Each name has the value of its last pair. -/
theorem get?_ofList (pairs : List (String × α)) (key : String) :
    (ofList pairs).get? key = pairs.reverse.lookup key := by
  induction pairs using List.reverseRecOn with
  | nil => rfl
  | append_singleton pairs pair ih =>
    have step : (ofList (pairs ++ [pair])).get? key =
        if key = pair.1 then some pair.2 else (ofList pairs).get? key := by
      rw [ofList_concat]
      exact lookup_insertEntry pair.1 pair.2 (ofList pairs).entries key
    rw [step, ih, List.reverse_append, List.reverse_singleton, List.singleton_append, lookup_cons_eq_ite]

end TemplateWeaver.OrderedMap
