import Mathlib.Algebra.Ring.Int.Defs
import TemplateWeaver.Proofs.Code.Lines
import TemplateWeaver.Proofs.Source.Closed

/-!
Braces of code, line after line. `Balanced` lines open each brace before they close it; `Steady` says the same
along segments, with what they embed left out (`balanced_iff`). Steady segments that close all they open stand for
level code if all that they embed is level (`level_expandWith`), and laying out level code cuts no depth off at zero.
-/
namespace TemplateWeaver

open Code (Block BufferId Segment depthAfterLine expandWith lineLevel)
open Source (State braceDelta)

variable {β : Type}

/-! ### Segments -/

namespace Code.Segment

/-- The braces that a segment opens; embedded code counts for itself. -/
def braces : Segment β → Int
  | .line text => State.code.balance text.toList
  | .embed _ => 0

/-- The segment is a line that begins with a closing brace. -/
def closes : Segment β → Prop
  | .line text => text.toList.head? = some '}'
  | .embed _ => False

instance (segment : Segment β) : Decidable segment.closes :=
  match segment with
  | .line text => inferInstanceAs (Decidable (text.toList.head? = some '}'))
  | .embed _ => inferInstanceAs (Decidable False)

end Code.Segment

/-- Behind `depth` open braces, no line closes more braces than are open, and none begins with a closing
    brace where no brace is open. -/
def Steady (depth : Int) : List (Segment β) → Prop
  | [] => 0 ≤ depth
  | segment :: rest => 0 ≤ depth ∧ (segment.closes → 1 ≤ depth) ∧ Steady (depth + segment.braces) rest

def Steady.decide : (depth : Int) → (segments : List (Segment β)) → Decidable (Steady depth segments)
  | depth, [] => inferInstanceAs (Decidable (0 ≤ depth))
  | depth, segment :: rest =>
    have := decide (depth + segment.braces) rest
    inferInstanceAs (Decidable (0 ≤ depth ∧ (segment.closes → 1 ≤ depth) ∧ Steady (depth + segment.braces) rest))

instance (depth : Int) (segments : List (Segment β)) : Decidable (Steady depth segments) :=
  Steady.decide depth segments

namespace Steady

variable {xs ys : List (Segment β)} {depth more : Int}

theorem mono (steady : Steady depth xs) (deeper : depth ≤ more) : Steady more xs := by
  induction xs generalizing depth more with
  | nil => exact Int.le_trans steady deeper
  | cons segment rest ih =>
    obtain ⟨enough, closing, later⟩ := steady
    refine ⟨by omega, fun closes => ?_, ih later (by omega)⟩
    have := closing closes
    omega

theorem append (front : Steady depth xs) (back : Steady (depth + (xs.map Segment.braces).sum) ys) :
    Steady depth (xs ++ ys) := by
  induction xs generalizing depth with
  | nil => simpa using back
  | cons segment rest ih =>
    obtain ⟨enough, closing, later⟩ := front
    refine ⟨enough, closing, ih later ?_⟩
    rwa [List.map_cons, List.sum_cons, ← Int.add_assoc] at back

/-- No brace is missing at the beginning. -/
theorem enough (steady : Steady depth xs) : 0 ≤ depth := by
  cases xs with
  | nil => exact steady
  | cons segment rest => exact steady.1

theorem embed {content : β} (steady : Steady depth (.embed content :: xs)) : Steady depth xs := by
  obtain ⟨-, -, later⟩ := steady
  rwa [Segment.braces, Int.add_zero] at later

/-- Behind a steady line those braces are open that the line leaves, and what follows is steady there. -/
theorem line {depth : Nat} {text : String} (steady : Steady depth (.line text :: xs)) :
    (depthAfterLine depth text : Int) = depth + braceDelta text ∧ Steady (depthAfterLine depth text) xs := by
  obtain ⟨-, -, later⟩ := steady
  rw [Segment.braces, ← Source.braceDelta_eq] at later
  have after : (depthAfterLine depth text : Int) = depth + braceDelta text := by
    rw [depthAfterLine, Int.toNat_of_nonneg later.enough]
  exact ⟨after, by rwa [after]⟩

end Steady

/-! ### Balanced lines -/

/-- Lines read one after the other close no brace that is not open and leave none open, and those that
    begin with a closing brace stand where one is open. -/
structure Balanced (lines : List String) : Prop where
  opened : ∀ front back, lines = front ++ back → 0 ≤ (front.map braceDelta).sum
  closed : (lines.map braceDelta).sum = 0
  closing : ∀ front line back, lines = front ++ line :: back → line.toList.head? = some '}' →
    1 ≤ (front.map braceDelta).sum

/-- The lines of segments, without those of what they embed. -/
def ownTexts : List (Segment β) → List String
  | [] => []
  | .line text :: rest => text :: ownTexts rest
  | .embed _ :: rest => ownTexts rest

theorem sum_ownTexts (segments : List (Segment β)) :
    ((ownTexts segments).map braceDelta).sum = (segments.map Segment.braces).sum := by
  induction segments with
  | nil => rfl
  | cons segment rest ih =>
    rw [List.map_cons, List.sum_cons, ← ih]
    cases segment with
    | line text => rw [ownTexts, List.map_cons, List.sum_cons, Source.braceDelta_eq, Segment.braces]
    | embed content => rw [ownTexts, Segment.braces, Int.zero_add]

namespace Steady

variable {segments : List (Segment β)} {depth : Int}

/-- Wherever the lines are cut, no brace is missing there, nor for a line behind the cut to begin with a closing
    one. -/
theorem behind (steady : Steady depth segments) {front back : List String} (split : ownTexts segments = front ++ back) :
    0 ≤ depth + (front.map braceDelta).sum ∧
      ∀ line ∈ back.head?, line.toList.head? = some '}' → 1 ≤ depth + (front.map braceDelta).sum := by
  induction segments generalizing depth front with
  | nil =>
    obtain ⟨rfl, rfl⟩ := List.nil_eq_append_iff.mp split
    simpa using steady.enough
  | cons segment rest ih =>
    cases segment with
    | line text =>
      obtain ⟨enough, closing, later⟩ := steady
      cases front with
      | nil =>
        obtain rfl : text :: ownTexts rest = back := split
        refine ⟨by simpa using enough, ?_⟩
        rintro line ⟨⟩ closes
        simpa using closing closes
      | cons line front =>
        obtain ⟨rfl, tail⟩ := List.cons.inj split
        rw [Segment.braces, ← Source.braceDelta_eq] at later
        rw [List.map_cons, List.sum_cons, ← Int.add_assoc]
        exact ih later tail
    | embed content => exact ih steady.embed split

theorem of_ownTexts
    (opened : ∀ front back, ownTexts segments = front ++ back → 0 ≤ depth + (front.map braceDelta).sum)
    (closing : ∀ front line back, ownTexts segments = front ++ line :: back → line.toList.head? = some '}' →
      1 ≤ depth + (front.map braceDelta).sum) : Steady depth segments := by
  have enough : 0 ≤ depth := by simpa using opened [] (ownTexts segments) rfl
  induction segments generalizing depth with
  | nil => exact enough
  | cons segment rest ih =>
    cases segment with
    | line text =>
      have open_ : ∀ front back, ownTexts rest = front ++ back →
          0 ≤ depth + braceDelta text + (front.map braceDelta).sum := by
        intro front back split
        have longer := opened (text :: front) back (by rw [ownTexts, split, List.cons_append])
        rwa [List.map_cons, List.sum_cons, ← Int.add_assoc] at longer
      refine ⟨enough, fun closes => ?_, ?_⟩
      · simpa using closing [] text (ownTexts rest) rfl closes
      · rw [Segment.braces, ← Source.braceDelta_eq]
        refine ih open_ ?_ (by simpa using open_ [] (ownTexts rest) rfl)
        intro front line back split closes
        have longer := closing (text :: front) line back (by rw [ownTexts, split, List.cons_append]) closes
        rwa [List.map_cons, List.sum_cons, ← Int.add_assoc] at longer
    | embed content =>
      refine ⟨enough, fun closes => closes.elim, ?_⟩
      rw [Segment.braces, Int.add_zero]
      exact ih opened closing enough

end Steady

/-- Balanced lines among embedded code are steady segments that close all they open. -/
theorem balanced_iff {segments : List (Segment β)} :
    Balanced (ownTexts segments) ↔ Steady 0 segments ∧ (segments.map Segment.braces).sum = 0 := by
  constructor
  · rintro ⟨opened, closed, closing⟩
    refine ⟨.of_ownTexts ?_ ?_, (sum_ownTexts segments).symm.trans closed⟩
    · intro front back split
      simpa using opened front back split
    · intro front line back split closes
      simpa using closing front line back split closes
  · rintro ⟨steady, balance⟩
    refine ⟨?_, (sum_ownTexts segments).trans balance, ?_⟩
    · intro front back split
      simpa using (steady.behind split).1
    · intro front line back split closes
      simpa using (steady.behind split).2 line rfl closes

/-- Lines as segments that embed nothing. -/
def asSegments (lines : List String) : List (Segment BufferId) :=
  lines.map .line

@[simp]
theorem ownTexts_asSegments (lines : List String) : ownTexts (asSegments lines) = lines := by
  induction lines with
  | nil => rfl
  | cons line lines ih => exact congrArg (line :: ·) ih

theorem sum_asSegments (lines : List String) :
    ((asSegments lines).map Segment.braces).sum = (lines.map braceDelta).sum := by
  rw [← sum_ownTexts, ownTexts_asSegments]

instance (lines : List String) : Decidable (Balanced lines) :=
  decidable_of_iff (Steady 0 (asSegments lines) ∧ ((asSegments lines).map Segment.braces).sum = 0)
    (by rw [← balanced_iff, ownTexts_asSegments])

/-! ### Level code -/

namespace Code.Block

mutual
/-- Laying out a block behind `depth` open braces cuts no depth off at zero: the braces open after a line
    are those before it and its own, and a line that begins with a closing brace stands a level lower. -/
def Unclamped (depth : Nat) : Block → Prop
  | .line text =>
    (depthAfterLine depth text : Int) = depth + braceDelta text ∧
      (text.toList.head? = some '}' → (lineLevel depth text : Int) = depth - 1)
  | .nested body => UnclampedAll 0 body
def UnclampedAll (depth : Nat) : List Block → Prop
  | [] => True
  | block :: rest => Unclamped depth block ∧ UnclampedAll (depthAfter depth block) rest
end

end Code.Block

/-- Code that may stand anywhere: it closes the braces that it opens and no others on the way, and laying
    it out cuts off no depth. -/
structure Level (body : List Block) : Prop where
  steady : Steady 0 (asSegments (Block.textsAll body))
  balance : ((Block.textsAll body).map braceDelta).sum = 0
  unclamped : Block.UnclampedAll 0 body

theorem Level.nil : Level [] :=
  ⟨Int.le_refl 0, rfl, trivial⟩

theorem Level.balanced {body : List Block} (level : Level body) : Balanced (Block.textsAll body) := by
  rw [← ownTexts_asSegments (Block.textsAll body), balanced_iff]
  exact ⟨level.steady, (sum_asSegments _).trans level.balance⟩

section
variable {f : BufferId → List Block}

/-- Embedded code that is level adds no brace to the lines around it. -/
theorem sum_expandWith (segments : List (Segment BufferId)) (inner : ∀ b, .embed b ∈ segments → Level (f b)) :
    ((Block.textsAll (expandWith f segments)).map braceDelta).sum = (segments.map Segment.braces).sum := by
  induction segments with
  | nil => rfl
  | cons segment rest ih =>
    have later := ih fun b member => inner b (by simp [member])
    cases segment with
    | line text =>
      change ((text :: Block.textsAll (expandWith f rest)).map braceDelta).sum = _
      rw [List.map_cons, List.sum_cons, List.map_cons, List.sum_cons, later, Segment.braces, Source.braceDelta_eq]
    | embed b =>
      change ((Block.textsAll (f b) ++ Block.textsAll (expandWith f rest)).map braceDelta).sum = _
      rw [List.map_append, List.sum_append, List.map_cons, List.sum_cons, later, (inner b (by simp)).balance,
        Segment.braces]

/-- Lines that are steady stay so with level code at the places where they embed some. -/
theorem steady_expandWith (segments : List (Segment BufferId)) {depth : Int} (steady : Steady depth segments)
    (inner : ∀ b, .embed b ∈ segments → Level (f b)) :
    Steady depth (asSegments (Block.textsAll (expandWith f segments))) := by
  induction segments generalizing depth with
  | nil => exact steady
  | cons segment rest ih =>
    obtain ⟨enough, closing, later⟩ := steady
    have after := ih later fun b member => inner b (by simp [member])
    cases segment with
    | line text => exact ⟨enough, closing, after⟩
    | embed b =>
      have body := inner b (by simp)
      change Steady depth (asSegments (Block.textsAll (f b) ++ Block.textsAll (expandWith f rest)))
      rw [asSegments, List.map_append]
      refine (body.steady.mono enough).append ?_
      rw [← asSegments, sum_asSegments, body.balance]
      exact after

/-- Where lines are steady, laying them out cuts off no depth. -/
theorem unclamped_expandWith (segments : List (Segment BufferId)) {depth : Nat} (steady : Steady depth segments)
    (inner : ∀ b, .embed b ∈ segments → Level (f b)) : Block.UnclampedAll depth (expandWith f segments) := by
  induction segments generalizing depth with
  | nil => trivial
  | cons segment rest ih =>
    have others : ∀ b, .embed b ∈ rest → Level (f b) := fun b member => inner b (by simp [member])
    cases segment with
    | line text =>
      obtain ⟨after, later⟩ := steady.line
      refine ⟨⟨after, fun closes => ?_⟩, ih later others⟩
      have := steady.2.1 closes
      rw [lineLevel, if_pos closes]
      omega
    | embed b => exact ⟨(inner b (by simp)).unclamped, ih steady.embed others⟩

/-- Steady segments that close all they open stand for level code, if all that they embed is level. -/
theorem level_expandWith {segments : List (Segment BufferId)} (steady : Steady 0 segments)
    (balance : (segments.map Segment.braces).sum = 0) (inner : ∀ b, .embed b ∈ segments → Level (f b)) :
    Level (expandWith f segments) where
  steady := steady_expandWith segments steady inner
  balance := (sum_expandWith segments inner).trans balance
  unclamped := unclamped_expandWith segments steady inner

end

end TemplateWeaver
