import TemplateWeaver.Proofs.Code.Lines
import TemplateWeaver.Proofs.Code.Termination

/-!
What rendering adds to the lines of a buffer. Each line has a level that hangs on the braces before it and on the
places where its buffer is embedded, but not on the level that is rendered at (`layoutAll_eq_join`). Rendering puts two
spaces a level before the line and a line feed behind it; the line itself, with all the lines of text that it may hold,
stays as it is (`render_indents`).
-/
namespace TemplateWeaver.Code

open Relation (ReflTransGen)

def spaces (count : Nat) : String :=
  String.ofList (List.replicate count ' ')

theorem spaces_add (count more : Nat) : spaces (count + more) = spaces count ++ spaces more := by
  rw [spaces, spaces, spaces, ← String.ofList_append, List.replicate_append_replicate]

/-! ### Lines with their levels -/

/-- A line and the level that it is indented to. -/
structure Placed where
  level : Nat
  text : String
  deriving DecidableEq, Repr

namespace Placed

/-- The line as it is laid out `base` levels further in. -/
def laidOut (base : Nat) (line : Placed) : String :=
  spaces (2 * (base + line.level)) ++ line.text ++ "\n"

def deeper (more : Nat) (line : Placed) : Placed :=
  { line with level := more + line.level }

theorem laidOut_deeper (base more : Nat) (line : Placed) :
    (line.deeper more).laidOut base = line.laidOut (base + more) := by
  simp only [laidOut, deeper, Nat.add_assoc]

theorem laidOut_add (base more : Nat) (line : Placed) :
    line.laidOut (base + more) = spaces (2 * more) ++ line.laidOut base := by
  have widths : 2 * (base + more + line.level) = 2 * more + 2 * (base + line.level) := by omega
  simp only [laidOut, widths, spaces_add, String.append_assoc]

end Placed

namespace Block

mutual
/-- The lines of a block behind `depth` open braces. Those of a nested block begin anew from where it stands. -/
def placed (depth : Nat) : Block → List Placed
  | .line text => [⟨lineLevel depth text, text⟩]
  | .nested body => (placedAll 0 body).map (Placed.deeper depth)
def placedAll (depth : Nat) : List Block → List Placed
  | [] => []
  | block :: rest => placed depth block ++ placedAll (depthAfter depth block) rest
end

mutual
theorem text_placed (depth : Nat) (block : Block) : (placed depth block).map Placed.text = texts block := by
  cases block with
  | line text => rfl
  | nested body =>
    rw [placed, List.map_map, texts, ← text_placedAll 0 body]
    rfl
theorem text_placedAll (depth : Nat) (blocks : List Block) :
    (placedAll depth blocks).map Placed.text = textsAll blocks := by
  cases blocks with
  | nil => rfl
  | cons block rest => rw [placedAll, List.map_append, text_placed, text_placedAll, textsAll]
end

mutual
theorem layout_eq_join (base depth : Nat) (block : Block) :
    layout base depth block = String.join ((placed depth block).map (Placed.laidOut base)) := by
  cases block with
  | line text => simp [layout, placed, Placed.laidOut, indent, spaces]
  | nested body =>
    rw [layout, layoutAll_eq_join, placed, List.map_map]
    refine congrArg _ (List.map_congr_left ?_)
    intro line _
    exact (line.laidOut_deeper base depth).symm
/-- Code is laid out line by line, each at its own level. -/
theorem layoutAll_eq_join (base depth : Nat) (blocks : List Block) :
    layoutAll base depth blocks = String.join ((placedAll depth blocks).map (Placed.laidOut base)) := by
  cases blocks with
  | nil => rfl
  | cons block rest =>
    rw [layoutAll, placedAll, List.map_append, String.join_append, layout_eq_join, layoutAll_eq_join]
end

end Block

/-! ### Lines of a buffer -/

namespace Store

variable {s : Store} {b c : BufferId}

/-- The lines that segments stand for: their own, and in the place of each embedded buffer its lines. -/
inductive Expands (s : Store) : List (Segment BufferId) → List String → Prop
  | nil : Expands s [] []
  | line (text : String) {rest : List (Segment BufferId)} {texts : List String} :
    Expands s rest texts → Expands s (.line text :: rest) (text :: texts)
  | embed {c : BufferId} {rest : List (Segment BufferId)} {inner texts : List String} :
    Expands s (s.segments c) inner → Expands s rest texts → Expands s (.embed c :: rest) (inner ++ texts)

theorem expands_expand {segments : List (Segment BufferId)}
    (inner : ∀ c, .embed c ∈ segments → s.Expands (s.segments c) (Block.textsAll (s.content c))) :
    s.Expands segments (Block.textsAll (s.expand segments)) := by
  induction segments with
  | nil => exact .nil
  | cons segment rest ih =>
    have later := ih fun c member => inner c (by simp [member])
    cases segment with
    | line text => exact .line text later
    | embed c => exact .embed (inner c (by simp)) later

/-- The content of a buffer has the lines that its segments stand for. -/
theorem AcyclicFrom.expands (acyclic : s.AcyclicFrom b) : s.Expands (s.segments b) (Block.textsAll (s.content b)) := by
  induction acyclic.acc with
  | intro b _ ih =>
    rw [acyclic.content_eq_expand]
    refine expands_expand ?_
    intro c edge
    exact ih c edge (acyclic.below (.single edge))

namespace Expands

variable {segments : List (Segment BufferId)} {segment : Segment BufferId} {texts : List String} {text : String}

/-- What one of the segments stands for is among the lines. -/
theorem part (expands : s.Expands segments texts) (member : segment ∈ segments) :
    ∃ own, s.Expands [segment] own ∧ own ⊆ texts := by
  induction expands with
  | nil => cases member
  | line text _ ih =>
    rcases List.mem_cons.mp member with rfl | later
    · exact ⟨[text], .line text .nil, by simp⟩
    · obtain ⟨own, single, among⟩ := ih later
      exact ⟨own, single, List.subset_cons_of_subset _ among⟩
  | embed inner _ _ ih =>
    rcases List.mem_cons.mp member with rfl | later
    · exact ⟨_, .embed inner .nil, by simp⟩
    · obtain ⟨own, single, among⟩ := ih later
      exact ⟨own, single, List.subset_append_of_subset_right _ among⟩

/-- The lines of every buffer that a chain of embeddings leads to are among those of the first. -/
theorem mem_of_path (expands : s.Expands (s.segments b) texts) (path : ReflTransGen s.Embeds b c)
    (member : .line text ∈ s.segments c) : text ∈ texts := by
  induction path using ReflTransGen.head_induction_on generalizing texts with
  | refl =>
    obtain ⟨own, single, among⟩ := expands.part member
    cases single
    exact among List.mem_cons_self
  | head edge _ ih =>
    obtain ⟨own, single, among⟩ := expands.part edge
    cases single with
    | embed inner _ => exact among (List.mem_append_left _ (ih inner))

end Expands

/-- Indentation is all that rendering adds. The lines of a buffer, with those of embedded buffers in their places, have
    levels such that the text rendered at any level has, line by line, two spaces for each level of both, the line and a
    line feed; so further in, it has more spaces before each line. Whatever a line of a buffer that the chains of
    embeddings lead to holds, it stands there as it is, also behind line feeds of its own. -/
theorem render_indents (acyclic : s.AcyclicFrom b) :
    ∃ lines : List Placed, s.Expands (s.segments b) (lines.map Placed.text) ∧
      (∀ level, s.render level b = String.join (lines.map (Placed.laidOut level))) ∧
      (∀ level more, s.render (level + more) b
        = String.join (lines.map fun line => spaces (2 * more) ++ line.laidOut level)) ∧
      ∀ c text, ReflTransGen s.Embeds b c → .line text ∈ s.segments c →
        ∃ front own back, lines = front ++ ⟨own, text⟩ :: back ∧ ∀ level, s.render level b
          = String.join (front.map (Placed.laidOut level)) ++ (spaces (2 * (level + own)) ++ text ++ "\n")
            ++ String.join (back.map (Placed.laidOut level)) := by
  have laidOut : ∀ level, s.render level b
      = String.join ((Block.placedAll 0 (s.content b)).map (Placed.laidOut level)) :=
    fun level => Block.layoutAll_eq_join level 0 (s.content b)
  have expands := acyclic.expands
  rw [← Block.text_placedAll 0] at expands
  refine ⟨Block.placedAll 0 (s.content b), expands, laidOut, ?_, ?_⟩
  · intro level more
    rw [laidOut]
    refine congrArg _ (List.map_congr_left ?_)
    intro line _
    exact line.laidOut_add level more
  · intro c text path member
    obtain ⟨⟨own, _⟩, among, rfl⟩ := List.mem_map.mp (expands.mem_of_path path member)
    obtain ⟨front, back, split⟩ := List.append_of_mem among
    refine ⟨front, own, back, split, ?_⟩
    intro level
    rw [laidOut, split, List.map_append, String.join_append, List.map_cons, String.join_cons, String.append_assoc]
    rfl

/-- A text over several lines, with blanks at their beginnings and ends and a blank line. -/
def poem : String :=
  "say('''one \n    \x7b two\n\n\tthree''');"

/-- The text in a buffer that is embedded in a block and behind it. -/
def recital : Store where
  buffers := [[.line "void go() \x7b", .embed ⟨1⟩, .line "\x7d", .embed ⟨1⟩], [.line poem]]

theorem recital_acyclic : recital.Acyclic := by
  refine acyclic_of_newer acyclic_empty ?_
  rintro ⟨_ | _ | n⟩ c edge
  · obtain rfl : c = ⟨1⟩ := by simpa [Embeds, segments, recital] using edge
    exact .inr ⟨by decide, Nat.zero_le _⟩
  · simp [Embeds, segments, recital] at edge
  · simp [Embeds, segments, recital] at edge

theorem render_indents_recital :
    recital.AcyclicFrom ⟨0⟩ ∧ recital.Embeds ⟨0⟩ ⟨1⟩ ∧ .line poem ∈ recital.segments ⟨1⟩ ∧
      (∃ lines : List Placed, (∀ level, recital.render level ⟨0⟩ = String.join (lines.map (Placed.laidOut level))) ∧
        ∃ front own back, lines = front ++ ⟨own, poem⟩ :: back) ∧
      recital.render 1 ⟨0⟩ = "  void go() \x7b\n    " ++ poem ++ "\n  \x7d\n  " ++ poem ++ "\n" := by
  have acyclic := recital_acyclic.acyclicFrom ⟨0⟩
  have edge : recital.Embeds ⟨0⟩ ⟨1⟩ := by simp [Embeds, segments, recital]
  have line : .line poem ∈ recital.segments ⟨1⟩ := by simp [segments, recital]
  obtain ⟨lines, -, rendered, -, keeps⟩ := render_indents acyclic
  obtain ⟨front, own, back, split, -⟩ := keeps ⟨1⟩ poem (.single edge) line
  exact ⟨acyclic, edge, line, ⟨lines, rendered, front, own, back, split⟩, by decide +kernel⟩

end Store

end TemplateWeaver.Code
