import TemplateWeaver.Proofs.Code.Embedding

/-!
The lines of code. What is laid out has every line of its blocks in it, those of nested blocks too
(`contains_layoutAll`), and a buffer that embeds another has the lines of the other.
-/
namespace TemplateWeaver

/-- A text stands somewhere in another. -/
def Contains (whole text : String) : Prop :=
  ∃ front back, whole = front ++ text ++ back

namespace Contains

variable {whole text : String}

theorem refl (text : String) : Contains text text :=
  ⟨"", "", by simp⟩

theorem append_left (inside : Contains whole text) (more : String) : Contains (more ++ whole) text := by
  obtain ⟨front, back, rfl⟩ := inside
  exact ⟨more ++ front, back, by simp only [String.append_assoc]⟩

theorem append_right (inside : Contains whole text) (more : String) : Contains (whole ++ more) text := by
  obtain ⟨front, back, rfl⟩ := inside
  exact ⟨front, back ++ more, by simp only [String.append_assoc]⟩

theorem trans {part : String} (outer : Contains whole part) (inner : Contains part text) : Contains whole text := by
  obtain ⟨front, back, rfl⟩ := outer
  exact (inner.append_left front).append_right back

end Contains

namespace Code

namespace Block

mutual
/-- The lines of a block one after the other, with those of nested blocks in their place. -/
def texts : Block → List String
  | .line text => [text]
  | .nested body => textsAll body
def textsAll : List Block → List String
  | [] => []
  | block :: rest => texts block ++ textsAll rest
end

theorem textsAll_append (front back : List Block) : textsAll (front ++ back) = textsAll front ++ textsAll back := by
  induction front with
  | nil => rfl
  | cons block rest ih => rw [List.cons_append, textsAll, textsAll, ih, List.append_assoc]

theorem mem_textsAll {block : Block} {blocks : List Block} {text : String} (member : block ∈ blocks)
    (inside : text ∈ texts block) : text ∈ textsAll blocks := by
  obtain ⟨front, back, rfl⟩ := List.append_of_mem member
  rw [textsAll_append, textsAll]
  exact List.mem_append_right _ (List.mem_append_left _ inside)

mutual
theorem contains_layout (base depth : Nat) {text : String} (block : Block) (member : text ∈ texts block) :
    Contains (layout base depth block) text := by
  cases block with
  | line own =>
    obtain rfl := List.mem_singleton.mp member
    exact ((Contains.refl text).append_left _).append_right _
  | nested body => exact contains_layoutAll (base + depth) 0 body member
/-- Every line of blocks stands in the text that they are laid out as. -/
theorem contains_layoutAll (base depth : Nat) {text : String} (blocks : List Block) (member : text ∈ textsAll blocks) :
    Contains (layoutAll base depth blocks) text := by
  cases blocks with
  | nil => cases member
  | cons block rest =>
    rw [layoutAll]
    rcases List.mem_append.mp member with first | later
    · exact (contains_layout base depth block first).append_right _
    · exact (contains_layoutAll base _ rest later).append_left _
end

end Block

namespace Store

variable {s : Store} {b : BufferId} {text : String}

theorem mem_textsAll_expand {segments : List (Segment BufferId)} (member : .line text ∈ segments) :
    text ∈ Block.textsAll (s.expand segments) :=
  Block.mem_textsAll (List.mem_map_of_mem member) (List.mem_singleton_self text)

/-- A store with one more buffer, which embeds those that were there: the lines of what it embeds are among its
    own. -/
theorem mem_content_extend {code : List (Segment BufferId)} (closed : ∀ b c, s.Embeds b c → c.index < s.size)
    (inside : b.index < s.size) (embeds : .embed b ∈ code) (member : text ∈ Block.textsAll (s.content b)) :
    text ∈ Block.textsAll ((s.allocate.2.extend s.allocate.1 code).content s.allocate.1) := by
  have size : (s.allocate.2.extend s.allocate.1 code).size = s.size + 1 := by
    rw [size_extend]
    simp [allocate, Store.size]
  have own : (s.allocate.2.extend s.allocate.1 code).segments s.allocate.1 = code := by
    have empty : s.segments s.allocate.1 = [] := segments_eq_nil (Nat.le_refl s.size)
    rw [segments_extend_self _ _ _ (by simp [allocate, Store.size]), segments_allocate, empty, List.nil_append]
  have others : ∀ c : BufferId, c.index < s.size →
      (s.allocate.2.extend s.allocate.1 code).segments c = s.segments c := by
    intro c old
    rw [segments_extend_of_ne, segments_allocate]
    rintro rfl
    exact Nat.lt_irrefl _ old
  have same := unroll_congr (P := fun c => c.index < s.size) (fun b c _ edge => closed b c edge) others s.size inside
  rw [content, size, unroll, own]
  refine Block.mem_textsAll (List.mem_map_of_mem embeds) ?_
  change text ∈ Block.textsAll ((s.allocate.2.extend s.allocate.1 code).unroll s.size b)
  rw [same]
  exact member

end Store

end Code

end TemplateWeaver
