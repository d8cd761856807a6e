import Mathlib.Algebra.Ring.Nat
import Mathlib.Data.Fintype.EquivFin
import TemplateWeaver.Proofs.Code.Embedding

/-!
Working out the text of a buffer comes to an end. Rendering, counting lines and asking whether there are any
go through the segments of a buffer and turn to each embedded buffer in the same way. Where no chain of
embeddings comes back to its beginning, none goes on for ever (`Acyclic.wellFounded`), and the three are
what that way of working gives (`Acyclic.settles`).
-/
namespace TemplateWeaver.Code

open Relation (ReflTransGen TransGen)

variable {β : Type}

/-! ### One buffer at a time -/

namespace Segment

/-- Segments laid out behind `depth` open braces, given the text of what they embed at a level. -/
def layoutAll (inner : Nat → β → String) (base depth : Nat) : List (Segment β) → String
  | [] => ""
  | .line text :: rest =>
    indent (base + lineLevel depth text) ++ text ++ "\n" ++ layoutAll inner base (depthAfterLine depth text) rest
  | .embed content :: rest => inner (base + depth) content ++ layoutAll inner base depth rest

/-- How many lines of text a segment has, given how many what it embeds has. -/
def lineCount (inner : β → Nat) : Segment β → Nat
  | .line text => (Text.lines text).length
  | .embed content => inner content

/-- Whether a segment has no line, given whether what it embeds has none. -/
def isEmpty (inner : β → Bool) : Segment β → Bool
  | .line _ => false
  | .embed content => inner content

end Segment

namespace Store

variable {s t : Store} {b c : BufferId}

/-- The way of working on a buffer ends: no chain of embeddings from it goes on for ever, and what is worked out
    for it comes from its segments and from what is worked out for the buffers that they embed. -/
structure Settles (s : Store) (b : BufferId) : Prop where
  ends : Acc (fun c b => s.Embeds b c) b
  render : ∀ level, s.render level b = Segment.layoutAll s.render level 0 (s.segments b)
  lineCount : s.lineCount b = ((s.segments b).map (Segment.lineCount s.lineCount)).sum
  isEmpty : s.isEmpty b = (s.segments b).all (Segment.isEmpty s.isEmpty)

theorem layoutAll_expand (s : Store) (base depth : Nat) (segments : List (Segment BufferId)) :
    Block.layoutAll base depth (s.expand segments) = Segment.layoutAll s.render base depth segments := by
  induction segments generalizing depth with
  | nil => rfl
  | cons segment rest ih =>
    cases segment with
    | line text =>
      have later := ih (depthAfterLine depth text)
      simp only [expand, expandWith_line, Block.layoutAll, Block.layout, Block.depthAfter, Segment.layoutAll] at later ⊢
      rw [later]
    | embed c =>
      have later := ih depth
      simp only [expand, expandWith_embed, Block.layoutAll, Block.layout, Block.depthAfter, Segment.layoutAll,
        render] at later ⊢
      rw [later]

theorem lineCountAll_expand (s : Store) (segments : List (Segment BufferId)) :
    Block.lineCountAll (s.expand segments) = (segments.map (Segment.lineCount s.lineCount)).sum := by
  induction segments with
  | nil => rfl
  | cons segment rest ih =>
    rw [List.map_cons, List.sum_cons, ← ih]
    cases segment <;> rfl

theorem isEmptyAll_expand (s : Store) (segments : List (Segment BufferId)) :
    Block.isEmptyAll (s.expand segments) = segments.all (Segment.isEmpty s.isEmpty) := by
  induction segments with
  | nil => rfl
  | cons segment rest ih =>
    rw [List.all_cons, ← ih]
    cases segment <;> rfl

/-- A store has only so many buffers, so a chain that never comes back has to end. -/
theorem AcyclicFrom.acc (acyclic : s.AcyclicFrom b) : Acc (fun c b => s.Embeds b c) b := by
  have outside : ∀ c : BufferId, ¬ c.index < s.size → Acc (fun c b => s.Embeds b c) c := by
    intro c beyond
    constructor
    intro d edge
    exact absurd edge.inside beyond
  have within : WellFounded fun i j : Fin s.size => ReflTransGen s.Embeds b ⟨j⟩ ∧ TransGen s.Embeds ⟨j⟩ ⟨i⟩ := by
    have : IsTrans (Fin s.size) fun i j => ReflTransGen s.Embeds b ⟨j⟩ ∧ TransGen s.Embeds ⟨j⟩ ⟨i⟩ :=
      ⟨fun _ _ _ first second => ⟨second.1, second.2.trans first.2⟩⟩
    have : Std.Irrefl fun i j : Fin s.size => ReflTransGen s.Embeds b ⟨j⟩ ∧ TransGen s.Embeds ⟨j⟩ ⟨i⟩ :=
      ⟨fun i circle => acyclic ⟨i⟩ circle.1 circle.2⟩
    exact Finite.wellFounded_of_trans_of_irrefl _
  have inside : ∀ i : Fin s.size, ReflTransGen s.Embeds b ⟨i⟩ → Acc (fun c b => s.Embeds b c) ⟨i⟩ := by
    intro i
    induction i using within.induction with
    | _ i ih =>
      intro path
      constructor
      intro c edge
      by_cases bound : c.index < s.size
      · exact ih ⟨c.index, bound⟩ ⟨path, .single edge⟩ (path.tail edge)
      · exact outside c bound
  by_cases bound : b.index < s.size
  · exact inside ⟨b.index, bound⟩ .refl
  · exact outside b bound

theorem Acyclic.wellFounded (acyclic : s.Acyclic) : WellFounded fun c b => s.Embeds b c :=
  ⟨fun b => (acyclic.acyclicFrom b).acc⟩

theorem Acyclic.settles (acyclic : s.Acyclic) (b : BufferId) : s.Settles b where
  ends := acyclic.wellFounded.apply b
  render level := by rw [Store.render, content_eq_expand acyclic, layoutAll_expand]
  lineCount := by rw [Store.lineCount, content_eq_expand acyclic, lineCountAll_expand]
  isEmpty := by rw [Store.isEmpty, content_eq_expand acyclic, isEmptyAll_expand]

/-! ### A buffer around others -/

/-- A buffer that nothing embeds is on no circle, whatever it embeds itself. -/
theorem acyclic_of_unembedded {root : BufferId} (acyclic : s.Acyclic)
    (same : ∀ b, b ≠ root → t.segments b = s.segments b) (free : ∀ b, ¬ t.Embeds b root) : t.Acyclic := by
  have old : ∀ {b c}, b ≠ root → t.Embeds b c → s.Embeds b c := by
    intro b c other edge
    rwa [Embeds, same b other] at edge
  have lifts : ∀ {b c}, b ≠ root → TransGen t.Embeds b c → TransGen s.Embeds b c := by
    intro b c other path
    induction path with
    | single edge => exact .single (old other edge)
    | tail path edge ih =>
      refine ih.tail (old ?_ edge)
      rintro rfl
      obtain ⟨a, onto⟩ := exists_embeds_of_path path
      exact free a onto
  intro b cycle
  obtain ⟨a, onto⟩ := exists_embeds_of_path cycle
  have other : b ≠ root := by
    rintro rfl
    exact free a onto
  exact acyclic b (lifts other cycle)

end Store

end TemplateWeaver.Code
