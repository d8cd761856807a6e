import TemplateWeaver.Proofs.Code.Balance

/-!
Embedded code and code in place. A nested block is laid out from depth zero at a deeper level, its lines in place
from the depth where they stand. If the lines balance, no depth is cut off at zero, the two go side by side
(`layoutAll_deeper`) and the block may be opened (`layoutAll_nested`). So a buffer that embeds another reads as if it
had the segments of the other in place, and where all that is embedded balances, as one list of lines
(`render_inlined`).
-/
namespace TemplateWeaver.Code

open Relation (TransGen)
open Source (braceDelta)

/-! ### Deeper lines -/

theorem lineLevel_add {depth : Nat} {text : String} (closing : text.toList.head? = some '}' → 1 ≤ (depth : Int))
    (more : Nat) : lineLevel (more + depth) text = more + lineLevel depth text := by
  unfold lineLevel
  split
  · rename_i closes
    have := closing closes
    omega
  · rfl

theorem depthAfterLine_add {depth : Nat} {text : String}
    (unclamped : (depthAfterLine depth text : Int) = depth + braceDelta text) (more : Nat) :
    depthAfterLine (more + depth) text = more + depthAfterLine depth text := by
  unfold depthAfterLine at *
  omega

namespace Block

variable {f : BufferId → List Block} {segments : List (Segment BufferId)} {depth : Nat}

/-- The braces open after several blocks. -/
def depthAfterAll (depth : Nat) (blocks : List Block) : Nat :=
  blocks.foldl depthAfter depth

theorem layoutAll_append (base depth : Nat) (front back : List Block) :
    layoutAll base depth (front ++ back)
      = layoutAll base depth front ++ layoutAll base (depthAfterAll depth front) back := by
  induction front generalizing depth with
  | nil => exact String.empty_append.symm
  | cons block rest ih =>
    rw [List.cons_append, layoutAll, layoutAll, ih, String.append_assoc]
    rfl

/-- Steady code behind `more` open braces is laid out as it is `more` levels deeper. -/
theorem layoutAll_deeper (steady : Steady depth segments) (base more : Nat) :
    layoutAll base (more + depth) (expandWith f segments) = layoutAll (base + more) depth (expandWith f segments) := by
  induction segments generalizing depth with
  | nil => rfl
  | cons segment rest ih =>
    cases segment with
    | line text =>
      obtain ⟨unclamped, later⟩ := steady.line
      have level := lineLevel_add steady.2.1 more
      change indent (base + lineLevel (more + depth) text) ++ text ++ "\n"
          ++ layoutAll base (depthAfterLine (more + depth) text) (expandWith f rest)
        = indent (base + more + lineLevel depth text) ++ text ++ "\n"
          ++ layoutAll (base + more) (depthAfterLine depth text) (expandWith f rest)
      rw [level, depthAfterLine_add unclamped, ih later, Nat.add_assoc]
    | embed b =>
      change layoutAll (base + (more + depth)) 0 (f b) ++ layoutAll base (more + depth) (expandWith f rest)
        = layoutAll (base + more + depth) 0 (f b) ++ layoutAll (base + more) depth (expandWith f rest)
      rw [ih steady.embed, Nat.add_assoc]

/-- Behind steady code those braces are open that were open before it and those that it opens. -/
theorem depthAfterAll_expandWith (steady : Steady depth segments) (more : Nat) :
    (depthAfterAll (more + depth) (expandWith f segments) : Int) = more + depth + (segments.map Segment.braces).sum := by
  induction segments generalizing depth with
  | nil =>
    change ((more + depth : Nat) : Int) = more + depth + 0
    omega
  | cons segment rest ih =>
    rw [List.map_cons, List.sum_cons]
    cases segment with
    | line text =>
      obtain ⟨unclamped, later⟩ := steady.line
      have tail := ih later
      change (depthAfterAll (depthAfterLine (more + depth) text) (expandWith f rest) : Int) = _
      rw [depthAfterLine_add unclamped, tail, unclamped, Segment.braces, ← Source.braceDelta_eq]
      omega
    | embed b =>
      have tail := ih steady.embed
      change (depthAfterAll (more + depth) (expandWith f rest) : Int) = _
      rw [tail, Segment.braces]
      omega

/-! ### Code in place -/

/-- Code with balanced lines reads the same as a block of its own and in place. -/
theorem layoutAll_nested (balanced : Balanced (ownTexts segments)) (base depth : Nat) (rest : List Block) :
    layoutAll base depth (.nested (expandWith f segments) :: rest)
      = layoutAll base depth (expandWith f segments ++ rest) := by
  obtain ⟨steady, balance⟩ := balanced_iff.mp balanced
  have fromZero : Steady (0 : Nat) segments := steady
  have after : depthAfterAll depth (expandWith f segments) = depth := by
    have total := depthAfterAll_expandWith (f := f) fromZero depth
    rw [balance, Nat.add_zero] at total
    omega
  have deeper := layoutAll_deeper (f := f) fromZero base depth
  rw [Nat.add_zero] at deeper
  rw [layoutAll_append, after, deeper, layoutAll, layout, depthAfter]

/-- Lines as blocks. -/
def flat (lines : List String) : List Block :=
  lines.map .line

theorem expandWith_asSegments (lines : List String) : expandWith f (asSegments lines) = flat lines := by
  rw [expandWith, asSegments, List.map_map]
  rfl

/-- Level code that reads as its lines does so as a block too. -/
theorem layoutAll_nested_flat {body : List Block} (level : Level body)
    (reads : ∀ base, layoutAll base 0 body = layoutAll base 0 (flat (textsAll body))) (base depth : Nat)
    (rest : List Block) :
    layoutAll base depth (.nested body :: rest) = layoutAll base depth (flat (textsAll body) ++ rest) := by
  have balanced : Balanced (ownTexts (asSegments (textsAll body))) := by
    rw [ownTexts_asSegments]
    exact level.balanced
  have opened := layoutAll_nested (f := fun _ => []) balanced base depth rest
  rw [expandWith_asSegments] at opened
  rw [← opened, layoutAll, layoutAll, layout, layout, reads]
  rfl

/-- Code reads as its lines, if all that it embeds is level and does. -/
theorem layoutAll_expandWith
    (inner : ∀ b, .embed b ∈ segments →
      Level (f b) ∧ ∀ base, layoutAll base 0 (f b) = layoutAll base 0 (flat (textsAll (f b))))
    (base depth : Nat) :
    layoutAll base depth (expandWith f segments) = layoutAll base depth (flat (textsAll (expandWith f segments))) := by
  induction segments generalizing depth with
  | nil => rfl
  | cons segment rest ih =>
    have later := ih fun b member => inner b (by simp [member])
    cases segment with
    | line text =>
      change layout base depth (.line text) ++ layoutAll base (depthAfterLine depth text) (expandWith f rest)
        = layout base depth (.line text)
          ++ layoutAll base (depthAfterLine depth text) (flat (textsAll (expandWith f rest)))
      rw [later]
    | embed b =>
      obtain ⟨level, reads⟩ := inner b (by simp)
      have split : flat (textsAll (expandWith f (.embed b :: rest)))
          = flat (textsAll (f b)) ++ flat (textsAll (expandWith f rest)) := List.map_append
      rw [split, ← layoutAll_nested_flat level reads]
      change layout base depth (.nested (f b)) ++ layoutAll base depth (expandWith f rest)
        = layout base depth (.nested (f b)) ++ layoutAll base depth (flat (textsAll (expandWith f rest)))
      rw [later]

end Block

/-! ### Buffers -/

namespace Store

variable {s t : Store} {b c : BufferId}

/-- The second store is the first, but at one place where `b` embeds `c` it has the segments of `c`. -/
structure Inlines (s t : Store) (b c : BufferId) : Prop where
  elsewhere : ∀ d, d ≠ b → t.segments d = s.segments d
  place : ∃ front back, s.segments b = front ++ .embed c :: back ∧ t.segments b = front ++ s.segments c ++ back

namespace Inlines

/-- What the buffer now embeds it embedded before, itself or through what it embedded. -/
theorem path_of_embeds (inlines : s.Inlines t b c) {d : BufferId} (edge : t.Embeds b d) : TransGen s.Embeds b d := by
  obtain ⟨front, back, old, new⟩ := inlines.place
  have direct : s.Embeds b c := by simp [Embeds, old]
  rw [Embeds, new, List.append_assoc] at edge
  rcases List.mem_append.mp edge with before | rest
  · exact .single (by simp [Embeds, old, before])
  rcases List.mem_append.mp rest with inner | behind
  · exact .tail (.single direct) inner
  · exact .single (by simp [Embeds, old, behind])

/-- Below the buffer nothing has changed. -/
theorem segments_below (inlines : s.Inlines t b c) (acyclic : s.AcyclicFrom b) {d : BufferId}
    (path : TransGen s.Embeds b d) : t.segments d = s.segments d := by
  refine inlines.elsewhere d ?_
  rintro rfl
  exact acyclic d .refl path

theorem acyclicFrom (inlines : s.Inlines t b c) (acyclic : s.AcyclicFrom b) : t.AcyclicFrom b := by
  have onward : ∀ {d e}, TransGen s.Embeds b d → t.Embeds d e → s.Embeds d e := by
    intro d e path edge
    rwa [Embeds, inlines.segments_below acyclic path] at edge
  have reached : ∀ {d}, TransGen t.Embeds b d → TransGen s.Embeds b d := by
    intro d path
    induction path with
    | single edge => exact inlines.path_of_embeds edge
    | tail _ edge ih => exact ih.tail (onward ih edge)
  intro d path cycle
  have below : TransGen s.Embeds b d := reached (TransGen.trans_right path cycle)
  -- A chain that begins below the buffer is one of the old store.
  have old : ∀ {e}, TransGen t.Embeds d e → TransGen s.Embeds d e := by
    intro e chain
    induction chain with
    | single edge => exact .single (onward below edge)
    | tail _ edge ih => exact ih.tail (onward (below.trans ih) edge)
  exact acyclic d below.to_reflTransGen (old cycle)

theorem content_below (inlines : s.Inlines t b c) (acyclic : s.AcyclicFrom b) {d : BufferId} (edge : t.Embeds b d) :
    t.content d = s.content d := by
  have path := inlines.path_of_embeds edge
  refine (acyclic.below path.to_reflTransGen).content_congr ((inlines.acyclicFrom acyclic).below (.single edge))
    (P := TransGen s.Embeds b) ?_ ?_ path
  · intro d e path edge
    exact path.tail edge
  · intro d path
    exact inlines.segments_below acyclic path

theorem render_eq (inlines : s.Inlines t b c) (acyclic : s.AcyclicFrom b) (balanced : Balanced (ownTexts (s.segments c)))
    (level : Nat) : t.render level b = s.render level b := by
  obtain ⟨front, back, old, new⟩ := inlines.place
  have edge : s.Embeds b c := by simp [Embeds, old]
  have inner : s.content c = expandWith s.content (s.segments c) := (acyclic.below (.single edge)).content_eq_expand
  have outer : s.content b = s.expand front ++ .nested (s.content c) :: s.expand back := by
    rw [acyclic.content_eq_expand, old, expand_append]
    rfl
  have inlined : t.content b = s.expand front ++ (expandWith s.content (s.segments c) ++ s.expand back) := by
    have same : t.expand (t.segments b) = s.expand (t.segments b) := by
      exact expandWith_congr fun d member => inlines.content_below acyclic member
    rw [(inlines.acyclicFrom acyclic).content_eq_expand, same, new, expand_append, expand_append, List.append_assoc]
    rfl
  calc
    t.render level b
      = Block.layoutAll level 0 (s.expand front ++ (expandWith s.content (s.segments c) ++ s.expand back)) := by
        rw [render, inlined]
    _ = Block.layoutAll level 0 (s.expand front ++ .nested (expandWith s.content (s.segments c)) :: s.expand back) := by
        rw [Block.layoutAll_append, Block.layoutAll_append level 0, Block.layoutAll_nested balanced]
    _ = s.render level b := by rw [render, outer, inner]

end Inlines

/-- Where all buffers that can be reached have balanced lines, each of them is level and reads as its lines. -/
theorem flat_unroll {P : BufferId → Prop} (closed : ∀ b c, P b → s.Embeds b c → P c)
    (balanced : ∀ b, P b → Balanced (ownTexts (s.segments b))) (fuel : Nat) {b : BufferId} (holds : P b) :
    Level (s.unroll fuel b) ∧ ∀ base,
      Block.layoutAll base 0 (s.unroll fuel b)
        = Block.layoutAll base 0 (Block.flat (Block.textsAll (s.unroll fuel b))) := by
  induction fuel generalizing b with
  | zero => exact ⟨.nil, fun _ => rfl⟩
  | succ fuel ih =>
    obtain ⟨steady, balance⟩ := balanced_iff.mp (balanced b holds)
    have inner := fun c (member : .embed c ∈ s.segments b) => ih (closed b c holds member)
    exact ⟨level_expandWith steady balance fun c member => (inner c member).1,
      fun base => Block.layoutAll_expandWith inner base 0⟩

/-- A buffer of lines holds them as they are. -/
theorem content_asSegments {lines : List String} (plain : s.segments b = asSegments lines) :
    s.content b = Block.flat lines := by
  have embedsNone : ∀ c, ¬ s.Embeds b c := by
    intro c edge
    rw [Embeds, plain, asSegments] at edge
    simp at edge
  have acyclic : s.AcyclicFrom b := by
    intro c path cycle
    rcases path.cases_head with rfl | ⟨d, edge, -⟩
    · obtain ⟨d, edge, -⟩ := TransGen.head'_iff.mp cycle
      exact embedsNone d edge
    · exact embedsNone d edge
  rw [acyclic.content_eq_expand, plain]
  exact Block.expandWith_asSegments lines

/-- In a buffer from which no chain of embeddings comes back to where it has been, an embedded buffer whose own
    lines balance reads as its segments do in its place, and this may be repeated. If all buffers that the chains
    lead to are such, the buffer reads as any buffer that has all the lines one after the other. -/
theorem render_inlined (acyclic : s.AcyclicFrom b) :
    (∀ t c, s.Inlines t b c → Balanced (ownTexts (s.segments c)) →
        t.AcyclicFrom b ∧ ∀ level, t.render level b = s.render level b) ∧
      ((∀ c, TransGen s.Embeds b c → Balanced (ownTexts (s.segments c))) →
        ∀ (t : Store) (plain : BufferId), t.segments plain = asSegments (Block.textsAll (s.content b)) →
          ∀ level, t.render level plain = s.render level b) := by
  constructor
  · intro t c inlines balanced
    exact ⟨inlines.acyclicFrom acyclic, inlines.render_eq acyclic balanced⟩
  · intro balanced t plain lines level
    have inner : ∀ c, .embed c ∈ s.segments b → Level (s.content c) ∧ ∀ base,
        Block.layoutAll base 0 (s.content c) = Block.layoutAll base 0 (Block.flat (Block.textsAll (s.content c))) := by
      intro c edge
      exact flat_unroll (fun _ _ path edge => path.tail edge) balanced s.size (.single edge)
    have whole : s.content b = expandWith s.content (s.segments b) := acyclic.content_eq_expand
    have reads := Block.layoutAll_expandWith inner level 0
    rw [← whole] at reads
    rw [render, render, content_asSegments lines, reads]

/-- A method around a branch around a statement, each in a buffer of its own. -/
def branching : Store where
  buffers :=
    [[.line "void go() \x7b", .embed ⟨1⟩, .line "\x7d"],
      [.line "if (on) \x7b", .embed ⟨2⟩, .line "\x7d else \x7b", .line "stop('''\n\x7b''');", .line "\x7d"],
      [.line "start();"]]

/-- The method with the branch in place. -/
def branchingInPlace : Store where
  buffers :=
    [[.line "void go() \x7b", .line "if (on) \x7b", .embed ⟨2⟩, .line "\x7d else \x7b", .line "stop('''\n\x7b''');",
        .line "\x7d", .line "\x7d"],
      [.line "if (on) \x7b", .embed ⟨2⟩, .line "\x7d else \x7b", .line "stop('''\n\x7b''');", .line "\x7d"],
      [.line "start();"]]

theorem branching_acyclic : branching.Acyclic := by
  refine acyclic_of_newer acyclic_empty ?_
  rintro ⟨_ | _ | _ | n⟩ c edge
  · obtain rfl : c = ⟨1⟩ := by simpa [Embeds, segments, branching] using edge
    exact .inr ⟨by decide, Nat.zero_le _⟩
  · obtain rfl : c = ⟨2⟩ := by simpa [Embeds, segments, branching] using edge
    exact .inr ⟨by decide, Nat.zero_le _⟩
  · simp [Embeds, segments, branching] at edge
  · simp [Embeds, segments, branching] at edge

theorem render_inlined_branching :
    branchingInPlace.render 1 ⟨0⟩ = branching.render 1 ⟨0⟩ ∧
      ({ buffers := [asSegments (Block.textsAll (branching.content ⟨0⟩))] } : Store).render 1 ⟨0⟩
        = branching.render 1 ⟨0⟩ ∧
      branching.render 1 ⟨0⟩ = "  void go() \x7b\n    if (on) \x7b\n      start();\n    \x7d else \x7b\n"
        ++ "      stop('''\n\x7b''');\n    \x7d\n  \x7d\n" := by
  have acyclic := branching_acyclic.acyclicFrom ⟨0⟩
  have branch : Balanced (ownTexts (branching.segments ⟨1⟩)) := by decide +kernel
  have statement : Balanced (ownTexts (branching.segments ⟨2⟩)) := by decide +kernel
  have inlines : branching.Inlines branchingInPlace ⟨0⟩ ⟨1⟩ := by
    refine ⟨?_, [.line "void go() \x7b"], [.line "\x7d"], rfl, rfl⟩
    rintro ⟨_ | n⟩ other
    · exact absurd rfl other
    · rfl
  have balanced : ∀ c, TransGen branching.Embeds ⟨0⟩ c → Balanced (ownTexts (branching.segments c)) := by
    rintro ⟨_ | _ | _ | n⟩ path
    · exact absurd path (branching_acyclic ⟨0⟩)
    · exact branch
    · exact statement
    · obtain ⟨⟨_ | _ | _ | m⟩, edge⟩ := exists_embeds_of_path path <;> simp [Embeds, segments, branching] at edge
  obtain ⟨once, all⟩ := render_inlined acyclic
  exact ⟨(once branchingInPlace ⟨1⟩ inlines branch).2 1, all balanced _ ⟨0⟩ rfl 1, by decide +kernel⟩

end Store

end TemplateWeaver.Code
