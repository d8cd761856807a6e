import TemplateWeaver.Proofs.Code.LineCount
import TemplateWeaver.Proofs.Weave.Growth

/-!
How generated lines end. Whatever the names and texts of a template hold, no feature writes a line that is empty or ends
in a line feed (`tight_code`), and all that a walk adds to a workspace is what features write (`mem_segments_weave`). So
in the sections of a new scope every line that is counted is a line of the rendered text (`observers_agree`).
-/
namespace TemplateWeaver

open Code (Block BufferId Segment Session Store)
open Relation (ReflTransGen)

variable {β : Type}

/-! ### Tight lines -/

namespace Text

theorem endsInLineFeed_trim (s : String) : endsInLineFeed (trim s) = false := by
  rw [endsInLineFeed, beq_eq_false_iff_ne]
  intro last
  have solid := not_isBlank_getLast_trim last
  revert solid
  decide

theorem endsInLineFeed_append {a b : String} (left : endsInLineFeed a = false) (right : endsInLineFeed b = false) :
    endsInLineFeed (a ++ b) = false := by
  simp only [endsInLineFeed, beq_eq_false_iff_ne, String.toList_append, List.getLast?_append] at *
  cases last : b.toList.getLast? with
  | none => rwa [Option.none_or]
  | some c => rwa [Option.some_or, ← last]

theorem endsInLineFeed_append_fixed {a b : String} {c : Char} (last : b.toList.getLast? = some c) (other : c ≠ '\n') :
    endsInLineFeed (a ++ b) = false := by
  rw [endsInLineFeed, String.toList_append, List.getLast?_append, last, Option.some_or, beq_eq_false_iff_ne]
  simpa using other

end Text

/-- No line is empty or ends in a line feed. -/
def Tight (segments : List (Segment β)) : Prop :=
  ∀ text, .line text ∈ segments → text ≠ "" ∧ Text.endsInLineFeed text = false

@[simp] theorem tight_nil : Tight ([] : List (Segment β)) := by
  rintro text ⟨⟩

@[simp] theorem tight_append {xs ys : List (Segment β)} : Tight (xs ++ ys) ↔ Tight xs ∧ Tight ys := by
  constructor
  · intro tight
    exact ⟨fun text member => tight text (List.mem_append_left ys member),
      fun text member => tight text (List.mem_append_right xs member)⟩
  · rintro ⟨front, back⟩ text member
    rcases List.mem_append.mp member with left | right
    · exact front text left
    · exact back text right

@[simp] theorem tight_embed {content : β} {xs : List (Segment β)} : Tight (.embed content :: xs) ↔ Tight xs := by
  simp [Tight]

@[simp] theorem tight_flatMap {α : Type} {items : List α} {f : α → List (Segment β)} :
    Tight (items.flatMap f) ↔ ∀ item ∈ items, Tight (f item) := by
  induction items with
  | nil => simp
  | cons item items ih => simp [ih]

@[simp] theorem tight_lines (text : String) : Tight (Code.lines text : List (Segment β)) := by
  intro line member
  obtain ⟨some, own, rfl⟩ := Code.of_mem_lines member
  exact ⟨some, Text.endsInLineFeed_trim own⟩

@[simp] theorem tight_allLines (texts : List String) : Tight (Code.allLines texts : List (Segment β)) := by
  rw [Code.allLines, tight_flatMap]
  exact fun text _ => tight_lines text

theorem tight_verbatim {text : String} (goesOn : Text.endsInLineFeed text = false) :
    Tight (Code.verbatim text : List (Segment β)) := by
  intro line member
  obtain ⟨some, rfl⟩ := Code.of_mem_verbatim member
  exact ⟨some, goesOn⟩

/-! ### What features write -/

@[simp] theorem tight_statement (code : String) : Tight (statement code : List (Segment β)) := by
  simp only [statement]
  split
  · exact tight_append.mpr ⟨tight_verbatim (Text.endsInLineFeed_trim code), tight_lines _⟩
  · exact tight_verbatim (Text.endsInLineFeed_append_fixed (c := ';') rfl (by decide))

@[simp] theorem tight_watch (stopper expression : String) : Tight (watch stopper expression : List (Segment β)) := by
  have opener : Text.endsInLineFeed
      (stopper ++ " = " ++ Names.library ++ ".watchAndInvoke(() => " ++ Text.trim expression) = false :=
    Text.endsInLineFeed_append (Text.endsInLineFeed_append_fixed (c := ' ') rfl (by decide))
      (Text.endsInLineFeed_trim expression)
  simp only [watch]
  split
  · exact tight_append.mpr ⟨tight_verbatim opener, tight_lines _⟩
  · exact tight_verbatim (Text.endsInLineFeed_append_fixed (c := '{') rfl (by decide))

@[simp] theorem tight_attributeWatch (field name : String) (binding : AttributeBinding) :
    Tight (attributeWatch field name binding : List (Segment β)) := by
  cases binding with
  | value binding => simp [attributeWatch, valueWatch]
  | classes bindings => simp [attributeWatch, classWatch]

/-- Names and texts may hold what they like: no feature writes a line that is empty or ends in a line feed. -/
theorem tight_code (feature : Feature β) (root : Option String) (part : Section) : Tight (feature.code root part) := by
  cases feature with
  | element field elementId domType => cases part <;> simp [Feature.code, elementCode]
  | listeners field events => cases part <;> simp [Feature.code, listenersCode]
  | bindings field attributes content => cases part <;> simp [Feature.code, bindingsCode, contentWatch]
  | component field ref => cases part <;> simp [Feature.code, componentCode]
  | conditional field condition stopper inner =>
    cases part <;> simp [Feature.code, conditionalCode, detachClone]
  | «repeated» field item collection stopper itemRoot inner =>
    cases part <;> simp [Feature.code, repeatedCode, removeClones]

/-! ### What a walk adds -/

section
variable {scope : Scope} {w w' : Workspace} {head : Head} {inner : Section → BufferId} {b : BufferId}
  {segment : Segment BufferId}

/-- A feature writes the segment to some section. -/
def Written (segment : Segment BufferId) : Prop :=
  ∃ (feature : Feature BufferId) (root : Option String) (part : Section), segment ∈ feature.code root part

theorem Enters.mem_segments (enters : Enters head scope w w' inner) (member : segment ∈ w'.store.segments b) :
    segment ∈ w.store.segments b ∨ Written segment := by
  by_cases ours : ∃ part, b = scope.buffers part
  · obtain ⟨part, rfl⟩ := ours
    rw [enters.own, List.mem_append] at member
    rcases member with old | own
    · exact .inl old
    · obtain ⟨feature, -, written⟩ := List.mem_flatMap.mp own
      exact .inr ⟨feature, _, part, written⟩
  · rw [enters.others b fun part same => ours ⟨part, same⟩] at member
    exact .inl member

end

mutual
/-- Every segment behind a walk was there before it or is one that a feature writes. -/
theorem mem_segments_weave {scope : Scope} {w : Workspace} {b : BufferId} {segment : Segment BufferId}
    (fits : scope.Fits w) (node : Node) (member : segment ∈ (node.weave scope w).1.store.segments b) :
    segment ∈ w.store.segments b ∨ Written segment := by
  cases node with
  | text value => exact .inl member
  | element head children =>
    rcases weave_element fits head children with ⟨fault, stopped⟩ | ⟨inner, w', enters, goes⟩
    · rw [stopped] at member
      exact .inl member
    · rw [goes] at member
      rcases mem_segments_weaveAll (enters.fits_childScope fits) children member with before | written
      · exact enters.mem_segments before
      · exact .inr written
theorem mem_segments_weaveAll {scope : Scope} {w : Workspace} {b : BufferId} {segment : Segment BufferId}
    (fits : scope.Fits w) (nodes : List Node) (member : segment ∈ (weaveAll scope w nodes).1.store.segments b) :
    segment ∈ w.store.segments b ∨ Written segment := by
  cases nodes with
  | nil => exact .inl member
  | cons node rest =>
    have grows := weave_grows fits node
    have first := @mem_segments_weave scope w b segment fits node
    rw [weaveAll] at member
    rcases result : node.weave scope w with ⟨w', _ | fault⟩
    · rw [result] at grows first member
      have still := fits.mono grows.size (Nat.le_of_eq grows.counters.symm)
      rcases mem_segments_weaveAll still rest member with before | written
      · exact first before
      · exact .inr written
    · rw [result] at first member
      exact first member
end

/-! ### New scopes -/

section
variable (e : Element) (w : Workspace) (root : Option String)

/-- The store when an element has been woven into a new scope, or as far as a fault let it come. -/
abbrev wovenStore : Store :=
  (e.weave (w.newScope root).1 (w.newScope root).2).1.store

variable {e w root} {b c : BufferId}

theorem segments_newScope_of_le (new : w.store.size ≤ b.index) : (w.newScope root).2.store.segments b = [] := by
  rw [Workspace.segments_newScope, Store.segments_eq_nil new]

theorem newer_of_embeds_woven (new : w.store.size ≤ b.index) (edge : (wovenStore e w root).Embeds b c) :
    b.index < c.index := by
  rcases (weave_grows (w.fits_newScope root) e.toNode).newer b c edge with old | ⟨above, -⟩
  · rw [Store.Embeds, segments_newScope_of_le new] at old
    cases old
  · exact above

theorem tight_woven (new : w.store.size ≤ b.index) : Tight ((wovenStore e w root).segments b) := by
  intro text member
  rcases mem_segments_weave (w.fits_newScope root) e.toNode member with old | ⟨feature, start, part, written⟩
  · rw [segments_newScope_of_le new] at old
    cases old
  · exact tight_code feature start part text written

end

/-- The three ways to look at a buffer agree. After any run of operations that leaves no circle of embeddings they end
    and no line is the empty text; there is no line exactly if none is counted and exactly if the text is empty, at
    whatever level; and the text has a line feed for each line that is counted, and one more for each line of the buffer
    or of what it embeds that ends in one. In a section of a new scope no line does, once an element has been woven or
    a fault has ended the walk, so that the lines that are counted are the lines of the text. -/
theorem observers_agree :
    (∀ operations, (Session.run {} operations).store.Acyclic → ∀ b,
      let s := (Session.run {} operations).store
      s.Settles b ∧ (∀ text, .line text ∈ s.segments b → text ≠ "") ∧
        (s.isEmpty b = true ↔ s.lineCount b = 0) ∧ (∀ level, s.isEmpty b = true ↔ s.render level b = "") ∧
        s.Expands (s.segments b) (Block.textsAll (s.content b)) ∧
        ∀ level, (s.render level b).toList.count '\n'
          = s.lineCount b + (Block.textsAll (s.content b)).countP Text.endsInLineFeed) ∧
    ∀ (e : Element) (w : Workspace) (root : Option String) (part : Section),
      let b := (w.newScope root).1.buffers part
      let s := wovenStore e w root
      s.Expands (s.segments b) (Block.textsAll (s.content b)) ∧
        (∀ text ∈ Block.textsAll (s.content b), Text.endsInLineFeed text = false) ∧
        ∀ level, s.lineCount b = (s.render level b).toList.count '\n' ∧
          s.lineCount b = (Text.lines (s.render level b)).length := by
  constructor
  · intro operations acyclic b s
    have solid : s.Solid b := fun c _ line => Session.line_ne_empty operations line rfl
    exact ⟨acyclic.settles b, fun text => Session.line_ne_empty operations, Store.isEmpty_iff_lineCount solid,
      fun level => (Store.render_eq_empty_iff solid level).symm, (acyclic.acyclicFrom b).expands,
      Store.count_render solid⟩
  · intro e w root part b s
    have newer : ∀ c d, w.store.size ≤ c.index → s.Embeds c d → c.index < d.index := fun c d => newer_of_embeds_woven
    have new := w.le_newScope_buffers root part
    have tight : ∀ c, ReflTransGen s.Embeds b c → Tight (s.segments c) :=
      fun c path => tight_woven (Store.le_of_path newer new path)
    have solid : s.Solid b := fun c path line => (tight c path "" line).1 rfl
    have goesOn : ∀ text ∈ Block.textsAll (s.content b), Text.endsInLineFeed text = false := by
      intro text member
      obtain ⟨c, path, line⟩ := Store.mem_textsAll_unroll member
      exact (tight c path text line).2
    have none : (Block.textsAll (s.content b)).countP Text.endsInLineFeed = 0 := by
      simpa [List.countP_eq_zero] using goesOn
    refine ⟨(Store.acyclicFrom_of_newer newer new).expands, goesOn, fun level => ?_⟩
    have counted := Store.count_render solid level
    rw [none, Nat.add_zero] at counted
    rw [s.length_lines_render level b]
    exact ⟨counted.symm, counted.symm⟩

/-- A block around a text that ends in line feeds, embedded twice, and a buffer to which only blank lines are added. -/
def refrain : List Code.Operation :=
  [.create, .create, .create, .append 0 "if (on) \x7b\n\n   go();  ", .embed 0 1, .embed 0 1, .embed 0 2,
   .append 0 "\x7d", .appendVerbatim 1 "say('''one\r\n\n''');\n\n", .append 2 "\n \r\n", .appendVerbatim 2 ""]

/-- A button whose action goes over two lines and ends in a comment and line feeds. -/
def commentedAction : Element where
  head :=
    { tag := "b"
      info := some
        { field := some "go"
          elementId := some "go"
          events := .ofList [("click", [{ action := "run(\r\n 1) // soon\n\n", field := "onGo" }])] } }
  children := []

theorem observers_agree_refrain :
    let s := (Session.run {} refrain).store
    let start := ({} : Workspace).newScope none
    s.Acyclic ∧ s.lineCount ⟨0⟩ = 11 ∧ (∀ level, (s.render level ⟨0⟩).toList.count '\n' = 11 + 2) ∧
      s.isEmpty ⟨2⟩ = true ∧ (∀ level, s.render level ⟨2⟩ = "") ∧
      ∀ level,
        (Text.lines ((wovenStore commentedAction {} none).render level (start.1.buffers .mounted))).length = 7 := by
  intro s start
  have store : s = { buffers := [
      [.line "if (on) \x7b", .line "go();", .embed ⟨1⟩, .embed ⟨1⟩, .embed ⟨2⟩, .line "\x7d"],
      [.line "say('''one\r\n\n''');\n\n"], []] } := by decide +kernel
  have acyclic : s.Acyclic := by
    rw [store]
    refine Store.acyclic_of_newer Store.acyclic_empty ?_
    rintro ⟨_ | _ | _ | n⟩ c edge
    · have among : c = ⟨1⟩ ∨ c = ⟨2⟩ := by simpa [Store.Embeds, Store.segments] using edge
      rcases among with rfl | rfl <;> exact .inr ⟨by decide, Nat.zero_le _⟩
    all_goals simp [Store.Embeds, Store.segments] at edge
  obtain ⟨buffers, sections⟩ := observers_agree
  obtain ⟨-, -, -, -, -, feeds⟩ := buffers refrain acyclic ⟨0⟩
  obtain ⟨-, -, uncounted, silent, -⟩ := buffers refrain acyclic ⟨2⟩
  have empty : s.isEmpty ⟨2⟩ = true := uncounted.mpr (by decide +kernel)
  have counted : s.lineCount ⟨0⟩ = 11 := by decide +kernel
  have ended : (Block.textsAll (s.content ⟨0⟩)).countP Text.endsInLineFeed = 2 := by decide +kernel
  have woven : (wovenStore commentedAction {} none).lineCount (start.1.buffers .mounted) = 7 := by decide +kernel
  refine ⟨acyclic, counted, fun level => ?_, empty, fun level => (silent level).mp empty, fun level => ?_⟩
  · exact (feeds level).trans (congrArg₂ (· + ·) counted ended)
  · obtain ⟨-, -, same⟩ := sections commentedAction {} none .mounted
    exact (same level).2.symm.trans woven

end TemplateWeaver
