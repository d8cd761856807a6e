import TemplateWeaver.Code.Segment
import TemplateWeaver.Source.Mask

/-!
Code as a tree: lines, and blocks of lines put in their place. Laying it out indents each line by
the braces that are open before it; a block starts afresh at the depth where it stands.
-/
namespace TemplateWeaver.Code

inductive Block where
  | line (text : String)
  | nested (body : List Block)

/-- A segment that embeds content. -/
def Segment.toBlock : Segment (List Block) → Block
  | .line text => .line text
  | .embed body => .nested body

/-- What segments stand for, if what they embed holds what `f` says. -/
def expandWith {β : Type} (f : β → List Block) (segments : List (Segment β)) : List Block :=
  segments.map fun segment => (segment.map f).toBlock

section
variable {β γ : Type} {f g : β → List Block}

@[simp] theorem expandWith_nil (f : β → List Block) : expandWith f [] = [] := rfl

@[simp] theorem expandWith_line (f : β → List Block) (text : String) (rest : List (Segment β)) :
    expandWith f (.line text :: rest) = .line text :: expandWith f rest := rfl

@[simp] theorem expandWith_embed (f : β → List Block) (content : β) (rest : List (Segment β)) :
    expandWith f (.embed content :: rest) = .nested (f content) :: expandWith f rest := rfl

@[simp] theorem expandWith_append (f : β → List Block) (front back : List (Segment β)) :
    expandWith f (front ++ back) = expandWith f front ++ expandWith f back :=
  List.map_append

/-- What segments stand for hangs on what they embed alone. -/
theorem expandWith_congr {segments : List (Segment β)}
    (same : ∀ content, .embed content ∈ segments → f content = g content) :
    expandWith f segments = expandWith g segments := by
  refine List.map_congr_left fun segment member => ?_
  cases segment with
  | line text => rfl
  | embed content => simp only [Segment.map, same content member]

theorem expandWith_map (f : γ → List Block) (g : β → γ) (segments : List (Segment β)) :
    expandWith f (segments.map (Segment.map g)) = expandWith (fun content => f (g content)) segments := by
  rw [expandWith, List.map_map]
  refine List.map_congr_left fun segment _ => ?_
  cases segment <;> rfl

end

/-- Two spaces for each level. -/
def indent (level : Nat) : String :=
  String.ofList (List.replicate (2 * level) ' ')

/-- The level of a line where `depth` braces are open: one less if it begins by closing one. -/
def lineLevel (depth : Nat) (text : String) : Nat :=
  if text.toList.head? = some '}' then depth - 1 else depth

/-- The braces open after a line, never fewer than none. -/
def depthAfterLine (depth : Nat) (text : String) : Nat :=
  (depth + Source.braceDelta text).toNat

namespace Block

/-- The braces open after a block; those of a nested one are its own affair. -/
def depthAfter (depth : Nat) : Block → Nat
  | .line text => depthAfterLine depth text
  | .nested _ => depth

mutual
/-- A block laid out at level `base`, behind `depth` open braces. -/
def layout (base depth : Nat) : Block → String
  | .line text => indent (base + lineLevel depth text) ++ text ++ "\n"
  | .nested body => layoutAll (base + depth) 0 body
def layoutAll (base depth : Nat) : List Block → String
  | [] => ""
  | block :: rest => layout base depth block ++ layoutAll base (depthAfter depth block) rest
end

mutual
/-- How many lines of text a block holds. -/
def lineCount : Block → Nat
  | .line text => (Text.lines text).length
  | .nested body => lineCountAll body
def lineCountAll : List Block → Nat
  | [] => 0
  | block :: rest => lineCount block + lineCountAll rest
end

mutual
/-- Whether a block holds no line at all. -/
def isEmpty : Block → Bool
  | .line _ => false
  | .nested body => isEmptyAll body
def isEmptyAll : List Block → Bool
  | [] => true
  | block :: rest => isEmpty block && isEmptyAll rest
end

end Block

end TemplateWeaver.Code
