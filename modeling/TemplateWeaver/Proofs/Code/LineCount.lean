import TemplateWeaver.Proofs.Code.History
import TemplateWeaver.Proofs.Code.Indentation
import TemplateWeaver.Proofs.Text.LineFeed

/-!
Three ways to look at a buffer: whether it has a line, how many lines it has, and its text. Where no line is the empty
text, which no operation makes one (`Session.line_ne_empty`), they agree: the text is empty exactly if there is no line
to count (`render_eq_empty_iff`), and it has a line feed for each line counted and one more for each line that ends in
one itself (`count_render`).
-/
namespace TemplateWeaver.Code

open Relation (ReflTransGen)

namespace Block

/-! ### Blocks without lines -/

mutual
theorem isEmpty_iff (block : Block) : isEmpty block = true ↔ texts block = [] := by
  cases block with
  | line text => simp [isEmpty, texts]
  | nested body => exact isEmptyAll_iff body
theorem isEmptyAll_iff (blocks : List Block) : isEmptyAll blocks = true ↔ textsAll blocks = [] := by
  cases blocks with
  | nil => simp [isEmptyAll, textsAll]
  | cons block rest =>
    rw [isEmptyAll, textsAll, Bool.and_eq_true, List.append_eq_nil_iff, isEmpty_iff, isEmptyAll_iff]
end

mutual
theorem lineCount_eq_zero_iff (block : Block) (solid : "" ∉ texts block) : lineCount block = 0 ↔ texts block = [] := by
  cases block with
  | line text =>
    have some : text ≠ "" := fun empty => solid (by simp [texts, empty])
    simp [lineCount, texts, Text.lines_ne_nil some]
  | nested body => exact lineCountAll_eq_zero_iff body solid
/-- Lines that have text are counted. -/
theorem lineCountAll_eq_zero_iff (blocks : List Block) (solid : "" ∉ textsAll blocks) :
    lineCountAll blocks = 0 ↔ textsAll blocks = [] := by
  cases blocks with
  | nil => simp [lineCountAll, textsAll]
  | cons block rest =>
    obtain ⟨first, later⟩ := not_or.mp (mt List.mem_append.mpr solid)
    rw [lineCountAll, textsAll, Nat.add_eq_zero_iff, List.append_eq_nil_iff, lineCount_eq_zero_iff block first,
      lineCountAll_eq_zero_iff rest later]
end

/-! ### Line feeds -/

mutual
theorem count_layout (base depth : Nat) (block : Block) (solid : "" ∉ texts block) :
    (layout base depth block).toList.count '\n' = lineCount block + (texts block).countP Text.endsInLineFeed := by
  cases block with
  | line text =>
    have some : text ≠ "" := fun empty => solid (by simp [texts, empty])
    have counted := Text.length_lines some
    have indented : (indent (base + lineLevel depth text)).toList.count '\n' = 0 := by
      simp [indent, List.count_replicate]
    have feed : "\n".toList.count '\n' = 1 := rfl
    rw [layout, String.toList_append, String.toList_append, List.count_append, List.count_append, indented, feed, texts,
      List.countP_singleton, lineCount]
    omega
  | nested body => exact count_layoutAll (base + depth) 0 body solid
/-- Laid out, code has a line feed for each line of text, and one more for each line that ends in one. -/
theorem count_layoutAll (base depth : Nat) (blocks : List Block) (solid : "" ∉ textsAll blocks) :
    (layoutAll base depth blocks).toList.count '\n'
      = lineCountAll blocks + (textsAll blocks).countP Text.endsInLineFeed := by
  cases blocks with
  | nil => rfl
  | cons block rest =>
    obtain ⟨first, later⟩ := not_or.mp (mt List.mem_append.mpr solid)
    have here := count_layout base depth block first
    have behind := count_layoutAll base (depthAfter depth block) rest later
    rw [layoutAll, String.toList_append, List.count_append, here, behind, lineCountAll, textsAll, List.countP_append]
    omega
end

theorem layoutAll_eq_empty_iff (base depth : Nat) (blocks : List Block) (solid : "" ∉ textsAll blocks) :
    layoutAll base depth blocks = "" ↔ textsAll blocks = [] := by
  constructor
  · intro empty
    have counted := count_layoutAll base depth blocks solid
    rw [empty, String.toList_empty, List.count_nil] at counted
    exact (lineCountAll_eq_zero_iff blocks solid).mp (by omega)
  · intro none
    rw [← text_placedAll depth, List.map_eq_nil_iff] at none
    rw [layoutAll_eq_join, none]
    rfl

/-- What is laid out is nothing or ends with a line. -/
theorem getLast?_layoutAll (base depth : Nat) (blocks : List Block) :
    ('\n' :: (layoutAll base depth blocks).toList).getLast? = some '\n' := by
  rw [layoutAll_eq_join]
  rcases List.eq_nil_or_concat (placedAll depth blocks) with none | ⟨front, last, split⟩
  · rw [none]
    rfl
  · have feed : "\n".toList = ['\n'] := rfl
    rw [split, List.concat_eq_append, List.map_append, String.join_append, List.map_singleton, String.join_cons,
      String.join_nil, String.append_empty, Placed.laidOut, ← String.append_assoc, String.toList_append, feed,
      ← List.cons_append, List.getLast?_concat]

end Block

/-! ### Buffers -/

namespace Store

variable {s : Store} {b : BufferId} {text : String}

/-- A line of what segments stand for is one of them or a line of what one of them embeds. -/
theorem mem_textsAll_expandWith {f : BufferId → List Block} {segments : List (Segment BufferId)}
    (member : text ∈ Block.textsAll (expandWith f segments)) :
    .line text ∈ segments ∨ ∃ c, .embed c ∈ segments ∧ text ∈ Block.textsAll (f c) := by
  induction segments with
  | nil => cases member
  | cons segment rest ih =>
    rcases List.mem_append.mp member with here | behind
    · cases segment with
      | line own =>
        obtain rfl : text = own := List.mem_singleton.mp here
        exact .inl List.mem_cons_self
      | embed c => exact .inr ⟨c, List.mem_cons_self, here⟩
    · rcases ih behind with own | ⟨c, edge, deeper⟩
      · exact .inl (List.mem_cons_of_mem _ own)
      · exact .inr ⟨c, List.mem_cons_of_mem _ edge, deeper⟩

/-- A line in the content of a buffer is a line of a buffer that a chain of embeddings leads to. -/
theorem mem_textsAll_unroll {fuel : Nat} (member : text ∈ Block.textsAll (s.unroll fuel b)) :
    ∃ c, ReflTransGen s.Embeds b c ∧ .line text ∈ s.segments c := by
  induction fuel generalizing b with
  | zero => cases member
  | succ fuel ih =>
    rcases mem_textsAll_expandWith member with own | ⟨c, edge, deeper⟩
    · exact ⟨b, .refl, own⟩
    · obtain ⟨d, path, line⟩ := ih deeper
      exact ⟨d, .head edge path, line⟩

/-- No line that a buffer holds, itself or through what it embeds, is the empty text. -/
def Solid (s : Store) (b : BufferId) : Prop :=
  ∀ c, ReflTransGen s.Embeds b c → .line "" ∉ s.segments c

theorem Solid.texts (solid : s.Solid b) : "" ∉ Block.textsAll (s.content b) := by
  intro member
  obtain ⟨c, path, line⟩ := mem_textsAll_unroll member
  exact solid c path line

theorem isEmpty_iff_lineCount (solid : s.Solid b) : s.isEmpty b = true ↔ s.lineCount b = 0 := by
  rw [isEmpty, lineCount, Block.isEmptyAll_iff, Block.lineCountAll_eq_zero_iff _ solid.texts]

theorem render_eq_empty_iff (solid : s.Solid b) (level : Nat) : s.render level b = "" ↔ s.isEmpty b = true := by
  rw [render, isEmpty, Block.layoutAll_eq_empty_iff _ _ _ solid.texts, Block.isEmptyAll_iff]

theorem count_render (solid : s.Solid b) (level : Nat) :
    (s.render level b).toList.count '\n'
      = s.lineCount b + (Block.textsAll (s.content b)).countP Text.endsInLineFeed :=
  Block.count_layoutAll level 0 (s.content b) solid.texts

/-- The text of a buffer ends with a line, so that its lines are its line feeds. -/
theorem length_lines_render (s : Store) (level : Nat) (b : BufferId) :
    (Text.lines (s.render level b)).length = (s.render level b).toList.count '\n' :=
  Text.length_lines_of_ended (Block.getLast?_layoutAll level 0 (s.content b))

end Store

/-! ### Operations -/

section
variable {β : Type} {text line : String}

theorem of_mem_lines (member : (.line line : Segment β) ∈ lines text) : line ≠ "" ∧ ∃ own, line = Text.trim own := by
  obtain ⟨kept, among, same⟩ := List.mem_map.mp member
  cases same
  obtain ⟨trimmed, some⟩ := List.mem_filter.mp among
  obtain ⟨own, -, rfl⟩ := List.mem_map.mp trimmed
  exact ⟨by simpa using some, own, rfl⟩

theorem of_mem_verbatim (member : (.line line : Segment β) ∈ verbatim text) : line ≠ "" ∧ line = text := by
  rw [verbatim] at member
  split at member
  · cases member
  · rename_i some
    obtain rfl : line = text := by simpa using member
    exact ⟨some, rfl⟩

end

theorem Addition.line_ne_empty {addition : Addition} {text : String} (member : .line text ∈ addition.segments) :
    text ≠ "" := by
  cases addition with
  | lines own => exact (of_mem_lines member).1
  | verbatim own => exact (of_mem_verbatim member).1
  | embedding other => simp [segments] at member

/-- No run makes an empty line. -/
theorem Session.line_ne_empty (operations : List Operation) {b : BufferId} {text : String}
    (member : .line text ∈ (run {} operations).store.segments b) : text ≠ "" := by
  rw [segments_run_empty] at member
  obtain ⟨addition, -, inside⟩ := List.mem_flatMap.mp member
  exact addition.line_ne_empty inside

end TemplateWeaver.Code
