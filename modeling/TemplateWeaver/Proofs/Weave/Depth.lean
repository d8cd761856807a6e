import TemplateWeaver.Proofs.Weave.Lawful

/-!
Braces of the sections. What weaving a lawful template writes opens each brace before it closes it, line
after line and with embedded buffers read where they stand, so laying it out never cuts a depth off at
zero (`balanced_weave`). Neat buffers that embed only one another are level (`level_content`), and chains of
embeddings stay within the buffers that the walk has made.
-/
namespace TemplateWeaver

open Code (Block BufferId Store)
open Source (Closed Line)

/-- If the buffers from a number on are neat and embed only one another, their content is level. -/
theorem level_content {store : Store} {bound : Nat} (neat : NeatFrom bound store)
    (among : ∀ b c, bound ≤ b.index → store.Embeds b c → bound ≤ c.index) (b : BufferId) (above : bound ≤ b.index) :
    Level (store.content b) := by
  have unrolled : ∀ fuel b, bound ≤ b.index → Level (store.unroll fuel b) := by
    intro fuel
    induction fuel with
    | zero => exact fun b _ => .nil
    | succ fuel ih =>
      intro b above
      have own := neat b above
      exact level_expandWith own.steady own.balance fun c member => ih c (among b c above member)
  exact unrolled store.size b above

/-! ### Sections -/

/-- The braces of the code that weaving a lawful template writes to a new scope balance. That holds of the
    four sections and of each buffer that the walk has made for the children of a region, and laying them
    out cuts off no depth. It makes no difference whether the walk comes to an end. -/
theorem balanced_weave (e : Element) (w : Workspace) (lawful : e.toNode.Lawful) :
    let start := w.newScope none
    let woven := (e.weave start.1 start.2).1.store
    (∀ part, Balanced (Block.textsAll (woven.content (start.1.buffers part))) ∧
        Block.UnclampedAll 0 (woven.content (start.1.buffers part))) ∧
      ∀ b, w.store.size ≤ b.index →
        Balanced (Block.textsAll (woven.content b)) ∧ Block.UnclampedAll 0 (woven.content b) := by
  intro start woven
  have fits := w.fits_newScope none
  have empty : ∀ b, w.store.size ≤ b.index → start.2.store.segments b = [] := by
    intro b above
    rw [Workspace.segments_newScope, Store.segments_eq_nil above]
  have neat : NeatFrom w.store.size woven := by
    refine weave_neat fits (by rintro root ⟨⟩) ?_ e.toNode lawful
    intro b above
    rw [empty b above]
    exact .nil
  have among : ∀ b c, w.store.size ≤ b.index → woven.Embeds b c → w.store.size ≤ c.index := by
    intro b c above edge
    rcases (weave_grows fits e.toNode).newer b c edge with old | ⟨-, new, -⟩
    · rw [Store.Embeds, empty b above] at old
      cases old
    · exact Nat.le_trans (w.size_le_newScope none) new
  have level := level_content neat among
  refine ⟨fun part => ?_, fun b above => ⟨(level b above).balanced, (level b above).unclamped⟩⟩
  have own := level _ (w.le_newScope_buffers none part)
  exact ⟨own.balanced, own.unclamped⟩

/-- A region whose condition ends in a comment with a brace, around a button whose action begins with a
    closing brace. -/
def bracedRegion : Element where
  head := { tag := "div", info := some { field := some "box", elementId := some "box",
                                         region := some (.conditional "open // \x7b" "stopBox") } }
  children :=
    [.element { tag := "button",
                info := some { field := some "go", elementId := some "\x7d",
                               events := .ofList [("click", [{ action := "\x7d while (on) \x7b", field := "onGo" }])] } }
      []]

theorem bracedRegion_lawful : bracedRegion.toNode.Lawful := by
  have condition : Closed "open // \x7b" := Line.closed ⟨by decide +kernel, by decide +kernel⟩
  have action : Closed "\x7d while (on) \x7b" := Line.closed ⟨by decide +kernel, by decide +kernel⟩
  refine ⟨fun info given => ?_, ⟨fun info given => ?_, trivial⟩, trivial⟩
  · obtain rfl := Option.some.inj given
    refine ⟨?_, ?_, ?_, by simp, by simp, ?_⟩
    · rintro field ⟨⟩
      decide +kernel
    · rintro entry ⟨⟩
    · rintro entry ⟨⟩
    · rintro region ⟨⟩
      exact ⟨condition, by decide +kernel⟩
  · obtain rfl := Option.some.inj given
    refine ⟨?_, ?_, ?_, by simp, by simp, by simp⟩
    · rintro field ⟨⟩
      decide +kernel
    · intro entry member
      obtain rfl := List.mem_singleton.mp member
      exact ⟨by decide +kernel, action⟩
    · rintro entry ⟨⟩

theorem balanced_weave_bracedRegion :
    let start := ({} : Workspace).newScope none
    let woven := (bracedRegion.weave start.1 start.2).1.store
    (bracedRegion.weave start.1 start.2).2 = none ∧ bracedRegion.toNode.Lawful ∧ woven.size = 7 ∧
      (∀ part, Balanced (Block.textsAll (woven.content (start.1.buffers part)))) ∧
      Balanced (Block.textsAll (woven.content ⟨5⟩)) ∧ Block.UnclampedAll 0 (woven.content ⟨5⟩) := by
  intro start woven
  obtain ⟨sections, made⟩ := balanced_weave bracedRegion {} bracedRegion_lawful
  refine ⟨by decide +kernel, bracedRegion_lawful, by decide +kernel, fun part => (sections part).1, ?_⟩
  exact made ⟨5⟩ (Nat.zero_le _)

end TemplateWeaver
