import Mathlib.Data.List.Nodup
import Mathlib.Data.List.Perm.Subperm
import Mathlib.Logic.Relation
import TemplateWeaver.Code.Store

/-!
Embeddings between buffers. Where no chain of embeddings comes back to its beginning, the content of a
buffer is what its segments stand for (`content_eq_expand`), and it hangs on no buffer that cannot be
reached from it (`content_congr`). Embedding newer buffers brings no such chain (`acyclic_of_newer`).
-/
namespace TemplateWeaver.Code

open Relation (ReflTransGen TransGen)

namespace Store

variable {s t : Store} {b c : BufferId}

/-- One buffer has another at one of its places. -/
def Embeds (s : Store) (b c : BufferId) : Prop :=
  .embed c ∈ s.segments b

/-- No chain of embeddings comes back to where it began. -/
def Acyclic (s : Store) : Prop :=
  ∀ b, ¬ TransGen s.Embeds b b

/-- No chain of embeddings from a buffer on comes back to where it has been, whatever other buffers embed. -/
def AcyclicFrom (s : Store) (b : BufferId) : Prop :=
  ∀ c, ReflTransGen s.Embeds b c → ¬ TransGen s.Embeds c c

theorem Acyclic.acyclicFrom (acyclic : s.Acyclic) (b : BufferId) : s.AcyclicFrom b :=
  fun c _ => acyclic c

theorem AcyclicFrom.below (acyclic : s.AcyclicFrom b) (path : ReflTransGen s.Embeds b c) : s.AcyclicFrom c :=
  fun d onward => acyclic d (path.trans onward)

/-- What segments stand for, with the content of each buffer where it is embedded. -/
def expand (s : Store) (segments : List (Segment BufferId)) : List Block :=
  expandWith s.content segments

@[simp] theorem expand_nil (s : Store) : s.expand [] = [] := rfl

@[simp] theorem expand_append (s : Store) (front back : List (Segment BufferId)) :
    s.expand (front ++ back) = s.expand front ++ s.expand back :=
  expandWith_append _ _ _

theorem segments_eq_nil (outside : s.size ≤ b.index) : s.segments b = [] := by
  simp only [segments, size] at *
  rw [List.getElem?_eq_none outside, Option.getD_none]

theorem Embeds.inside (edge : s.Embeds b c) : b.index < s.size := by
  by_contra outside
  simp [Embeds, segments_eq_nil (Nat.le_of_not_lt outside)] at edge

theorem path_inside (path : TransGen s.Embeds b c) : b.index < s.size := by
  induction path using TransGen.head_induction_on with
  | single edge => exact edge.inside
  | head edge _ _ => exact edge.inside

theorem exists_embeds_of_path (path : TransGen s.Embeds b c) : ∃ a, s.Embeds a c := by
  cases path with
  | single edge => exact ⟨_, edge⟩
  | tail _ edge => exact ⟨_, edge⟩

theorem acyclic_empty : ({} : Store).Acyclic := fun _ cycle => absurd (path_inside cycle) (Nat.not_lt_zero _)

/-! ### Content -/

/-- Buffers of a store that are all different are no more than the store has. -/
theorem length_le_size {path : List BufferId} (nodup : path.Nodup) (inside : ∀ b ∈ path, b.index < s.size) :
    path.length ≤ s.size := by
  have indices : (path.map BufferId.index).Nodup := by
    refine nodup.map ?_
    rintro ⟨m⟩ ⟨n⟩ rfl
    rfl
  have below : path.map BufferId.index ⊆ List.range s.size := by
    intro n member
    obtain ⟨b, here, rfl⟩ := List.mem_map.mp member
    exact List.mem_range.mpr (inside b here)
  simpa using (indices.subperm below).length_le

/-- One step more changes nothing once there are as many steps as buffers not yet on the chain
    `path` that led to `b`. -/
theorem unroll_succ (fuel : Nat) (path : List BufferId) (b : BufferId) (acyclic : s.AcyclicFrom b)
    (nodup : path.Nodup) (inside : ∀ a ∈ path, a.index < s.size)
    (leads : ∀ a ∈ path, TransGen s.Embeds a b) (enough : s.size ≤ fuel + path.length) :
    s.unroll (fuel + 1) b = s.unroll fuel b := by
  have fresh : b ∉ path := fun member => acyclic b .refl (leads b member)
  induction fuel generalizing path b with
  | zero =>
    -- The chain has been everywhere, so `b` is no buffer of the store.
    have outside : s.size ≤ b.index := by
      by_contra within
      have longer := length_le_size (List.nodup_cons.mpr ⟨fresh, nodup⟩)
        (List.forall_mem_cons.mpr ⟨Nat.lt_of_not_le within, inside⟩)
      simp only [List.length_cons] at longer
      omega
    simp [unroll, segments_eq_nil outside]
  | succ fuel ih =>
    rw [unroll, unroll]
    refine expandWith_congr fun c member => ?_
    have edge : s.Embeds b c := member
    have onward : ∀ a ∈ b :: path, TransGen s.Embeds a c :=
      List.forall_mem_cons.mpr ⟨.single edge, fun a here => (leads a here).tail edge⟩
    have below := acyclic.below (.single edge)
    exact ih (b :: path) c below (List.nodup_cons.mpr ⟨fresh, nodup⟩)
      (List.forall_mem_cons.mpr ⟨edge.inside, inside⟩) onward
      (by simp only [List.length_cons]; omega) (fun here => below c .refl (onward c here))

theorem AcyclicFrom.unroll_eq_content (acyclic : s.AcyclicFrom b) {fuel : Nat} (enough : s.size ≤ fuel) :
    s.unroll fuel b = s.content b := by
  obtain ⟨more, rfl⟩ := Nat.exists_eq_add_of_le enough
  induction more with
  | zero => rfl
  | succ more ih =>
    rw [← Nat.add_assoc, unroll_succ _ [] b acyclic List.nodup_nil (by simp) (by simp) (by simp)]
    exact ih (Nat.le_add_right _ _)

/-- A buffer holds what its segments stand for. -/
theorem AcyclicFrom.content_eq_expand (acyclic : s.AcyclicFrom b) : s.content b = s.expand (s.segments b) := by
  rw [← acyclic.unroll_eq_content (Nat.le_succ s.size)]
  rfl

theorem unroll_eq_content (acyclic : s.Acyclic) {fuel : Nat} (enough : s.size ≤ fuel) (b : BufferId) :
    s.unroll fuel b = s.content b :=
  (acyclic.acyclicFrom b).unroll_eq_content enough

theorem content_eq_expand (acyclic : s.Acyclic) (b : BufferId) : s.content b = s.expand (s.segments b) :=
  (acyclic.acyclicFrom b).content_eq_expand

theorem unroll_congr {P : BufferId → Prop} (closed : ∀ b c, P b → s.Embeds b c → P c)
    (same : ∀ b, P b → t.segments b = s.segments b) (fuel : Nat) {b : BufferId} (holds : P b) :
    t.unroll fuel b = s.unroll fuel b := by
  induction fuel generalizing b with
  | zero => rfl
  | succ fuel ih =>
    rw [unroll, unroll, same b holds]
    exact expandWith_congr fun c member => ih (closed b c holds member)

/-- Stores that agree on buffers from which no embedding leads away give them the same content. -/
theorem AcyclicFrom.content_congr {P : BufferId → Prop} (acyclic : s.AcyclicFrom b) (other : t.AcyclicFrom b)
    (closed : ∀ b c, P b → s.Embeds b c → P c) (same : ∀ b, P b → t.segments b = s.segments b) (holds : P b) :
    t.content b = s.content b := by
  rw [← acyclic.unroll_eq_content (Nat.le_max_left s.size t.size),
    ← other.unroll_eq_content (Nat.le_max_right s.size t.size)]
  exact unroll_congr closed same _ holds

theorem content_congr {P : BufferId → Prop} (acyclic : s.Acyclic) (other : t.Acyclic)
    (closed : ∀ b c, P b → s.Embeds b c → P c) (same : ∀ b, P b → t.segments b = s.segments b)
    {b : BufferId} (holds : P b) : t.content b = s.content b :=
  (acyclic.acyclicFrom b).content_congr (other.acyclicFrom b) closed same holds

/-! ### Newer buffers -/

/-- A chain in a store with embeddings added, each of a newer buffer, is an old one or ends in a
    newer buffer, above its beginning. -/
theorem path_of_newer
    (newer : ∀ b c, t.Embeds b c → s.Embeds b c ∨ b.index < c.index ∧ s.size ≤ c.index)
    (path : TransGen t.Embeds b c) :
    TransGen s.Embeds b c ∨ s.size ≤ c.index ∧ (s.size ≤ b.index → b.index < c.index) := by
  induction path with
  | single edge =>
    rcases newer _ _ edge with old | ⟨above, fresh⟩
    · exact .inl (.single old)
    · exact .inr ⟨fresh, fun _ => above⟩
  | tail _ edge ih =>
    rcases newer _ _ edge with old | ⟨above, fresh⟩
    · rcases ih with path | ⟨outside, _⟩
      · exact .inl (path.tail old)
      · exact absurd old.inside (Nat.not_lt.mpr outside)
    · refine .inr ⟨fresh, fun outside => ?_⟩
      rcases ih with path | ⟨_, higher⟩
      · exact absurd (path_inside path) (Nat.not_lt.mpr outside)
      · exact Nat.lt_trans (higher outside) above

theorem acyclic_of_newer (acyclic : s.Acyclic)
    (newer : ∀ b c, t.Embeds b c → s.Embeds b c ∨ b.index < c.index ∧ s.size ≤ c.index) :
    t.Acyclic := by
  intro b cycle
  rcases path_of_newer newer cycle with old | ⟨outside, higher⟩
  · exact acyclic b old
  · exact Nat.lt_irrefl _ (higher outside)

/-- Where embeddings from some buffer number on lead to newer buffers only, so do chains. -/
theorem lt_of_path {bound : Nat} (newer : ∀ b c, bound ≤ b.index → s.Embeds b c → b.index < c.index)
    (above : bound ≤ b.index) (path : TransGen s.Embeds b c) : b.index < c.index := by
  induction path with
  | single edge => exact newer _ _ above edge
  | tail _ edge ih => exact Nat.lt_trans ih (newer _ _ (by omega) edge)

theorem le_of_path {bound : Nat} (newer : ∀ b c, bound ≤ b.index → s.Embeds b c → b.index < c.index)
    (above : bound ≤ b.index) (path : ReflTransGen s.Embeds b c) : bound ≤ c.index := by
  rcases Relation.reflTransGen_iff_eq_or_transGen.mp path with rfl | chain
  · exact above
  · exact Nat.le_trans above (Nat.le_of_lt (lt_of_path newer above chain))

theorem acyclicFrom_of_newer {bound : Nat} (newer : ∀ b c, bound ≤ b.index → s.Embeds b c → b.index < c.index)
    (above : bound ≤ b.index) : s.AcyclicFrom b := by
  intro c path cycle
  exact Nat.lt_irrefl _ (lt_of_path newer (le_of_path newer above path) cycle)

end Store

end TemplateWeaver.Code
