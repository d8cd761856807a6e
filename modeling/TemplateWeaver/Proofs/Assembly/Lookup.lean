import TemplateWeaver.Assembly.Unit
import TemplateWeaver.Proofs.Assembly.Splicing
import TemplateWeaver.Proofs.Markup.StartTag
import TemplateWeaver.Proofs.Weave.Order

/-!
Lookups and the markup that they search. The code of a unit has in it the line that gives the root its markup
(`contains_markupLine`) and the lines that set the elements up (`contains_setup`), lookups among them. What an
element is looked up by stands in its start tag, but the markup is that of the root's children and leaves out what
is below a void tag (`markup_carries_ids`, `markup_lacks_ids`).
-/
namespace TemplateWeaver

open Code (Block BufferId Segment Store)
open Code.Segment (embedded ownLines mem_ownLines)

/-! ### Lines of a scope with code ahead of it -/

mutual
theorem texts_forget (traced : Traced) : Block.texts traced.forget = traced.lines.map Prod.snd := by
  cases traced with
  | line origin text => rfl
  | nested body => exact textsAll_forgetAll body
/-- The code of an emission has the lines of the emission. -/
theorem textsAll_forgetAll (body : List Traced) :
    Block.textsAll (Traced.forgetAll body) = (Traced.linesAll body).map Prod.snd := by
  cases body with
  | nil => rfl
  | cons traced rest =>
    rw [Traced.forgetAll, Block.textsAll, Traced.linesAll, List.map_append, texts_forget traced,
      textsAll_forgetAll rest]
end

section
variable {e : Element} {rootCode code : List (Segment BufferId)} {w : Workspace}

theorem segments_begun (rootCode : List (Segment BufferId)) (part : Section) :
    (begun rootCode).store.segments (unitScope.buffers part) = if part = .created then rootCode else [] := by
  have fits := ({} : Workspace).fits_newScope none
  by_cases created : part = .created
  · subst created
    rw [if_pos rfl]
    have own := Store.segments_extend_self _ _ rootCode (fits.inside .created)
    rwa [Workspace.segments_newScope_buffers, List.nil_append] at own
  · rw [if_neg created]
    have other := Store.segments_extend_of_ne (({} : Workspace).newScope none).2.store rootCode
      (fun same => created (fits.distinct same).symm : unitScope.buffers .created ≠ unitScope.buffers part)
    rwa [Workspace.segments_newScope_buffers] at other

/-- Nothing is embedded yet. -/
theorem not_embeds_begun (bare : embedded rootCode = []) (b c : BufferId) : ¬ (begun rootCode).store.Embeds b c := by
  intro edge
  by_cases ours : b = unitScope.buffers .created
  · rw [ours, Store.Embeds, segments_begun, if_pos rfl, ← Code.Segment.mem_embedded, bare] at edge
    cases edge
  · have other := Store.segments_extend_of_ne (({} : Workspace).newScope none).2.store rootCode (Ne.symm ours)
    rw [Store.Embeds, begun, Workspace.extend, other, Workspace.segments_newScope] at edge
    cases edge

theorem acyclic_begun (bare : embedded rootCode = []) : (begun rootCode).store.Acyclic := by
  intro b cycle
  cases cycle with
  | single edge => exact not_embeds_begun bare _ _ edge
  | tail _ edge => exact not_embeds_begun bare _ _ edge

/-- The sections hold the code ahead and that of the by-value recursion. -/
theorem content_begun (bare : embedded rootCode = [])
    (done : e.weave unitScope (begun rootCode) = (w, none)) (part : Section) :
    w.store.content (unitScope.buffers part)
      = w.store.expand (if part = .created then rootCode else []) ++ Traced.forgetAll ((e.emit none 0).code part) := by
  have fits := fits_begun rootCode
  have grows := weave_grows fits e.toNode
  rw [show e.toNode.weave _ _ = (w, none) from done] at grows
  obtain ⟨added, segments, -, expands⟩ := (weave_adds fits (acyclic_begun bare) [] e.toNode done).code part
  rw [segments_begun] at segments
  rw [Store.content_eq_expand (grows.acyclic (acyclic_begun bare)), segments, Store.expand_append, expands]
  rfl

/-- Code that embeds a section has the lines of the section in its text. -/
theorem contains_render (bare : embedded rootCode = [])
    (done : e.weave unitScope (begun rootCode) = (w, none)) {part : Section}
    (embeds : .embed (unitScope.buffers part) ∈ code) {text : String}
    (member : text ∈ Block.textsAll (w.store.content (unitScope.buffers part))) (level : Nat) :
    Contains ((w.allocate.2.extend w.allocate.1 code).store.render level w.allocate.1) text := by
  have fits := fits_begun rootCode
  have grows := weave_grows fits e.toNode
  rw [show e.toNode.weave _ _ = (w, none) from done] at grows
  have closed : ∀ b c, w.store.Embeds b c → c.index < w.store.size := by
    intro b c edge
    rcases grows.newer b c edge with old | ⟨-, -, inside⟩
    · exact absurd old (not_embeds_begun bare b c)
    · exact inside
  have inside := Nat.lt_of_lt_of_le (fits.inside part) grows.size
  exact Block.contains_layoutAll level 0 _ (Store.mem_content_extend closed inside embeds member)

end

/-! ### Compiled units -/

theorem lines_markupLine (config : Config) (nodes : List Node) :
    (Code.lines (markupLine config nodes) : List (Segment BufferId)) = [.line (markupLine config nodes)] := by
  have root : Source.Word Names.root := ⟨Source.Draft.fixed.plain rfl, .fixed rfl⟩
  have flat : '\n' ∉ (markupLine config nodes).toList :=
    Source.Plain.flat ((Source.Lead.word root).quote.draft.plain rfl)
  have whole : Text.trim (markupLine config nodes) = markupLine config nodes := by
    refine Text.trim_eq (c := '_') (d := ';') ?_ ?_ rfl rfl
    · simp [markupLine, Names.root]
    · rw [markupLine, String.toList_append]
      exact List.getLast?_concat
  have some : markupLine config nodes ≠ "" := by
    intro empty
    have first := congrArg String.toList empty
    simp [markupLine, Names.root] at first
  rw [Code.lines_flat flat, whole, if_neg some]

/-- A page is its preamble, the user's code and the program, if its body has no fault. -/
theorem Page.assemble_eq (u : Page) (config : Config) :
    u.assemble config = match u.body.withoutDefinitions.weave unitScope
        (begun (Page.rootCode config u.body.withoutDefinitions)) with
      | (_, some fault) => .error fault
      | (w, none) =>
        .ok (preamble config u.fileName
              (Source.libraryDirective (Source.splitLibrary u.userCode).1 u.libraryName u.fileName) u.references
            ++ Page.userPart (Source.splitLibrary u.userCode).2
            ++ (w.allocate.2.extend w.allocate.1 (Page.programCode unitScope)).store.render 0 w.allocate.1) :=
  rfl

namespace CompilationUnit

/-- The tree whose elements a unit looks up. -/
def tree : CompilationUnit → Element
  | .component unit => unit.template
  | .page unit => unit.body.withoutDefinitions

/-- The unit gives its root the markup: a page always does, a component if it is to and its class is there. -/
def InjectsMarkup : CompilationUnit → Prop
  | .component unit =>
    unit.inlineMarkup = true ∧
      (Source.classBodyOffset? unit.className (Source.mask (Source.splitLibrary unit.userCode).2)).isSome = true
  | .page _ => True

/-- The code ahead of what the tree creates. -/
def rootCode (config : Config) : CompilationUnit → List (Segment BufferId)
  | .component unit => unit.rootCode config
  | .page unit => Page.rootCode config unit.body.withoutDefinitions

variable {unit : CompilationUnit} {config : Config} {output : Output}

theorem embedded_rootCode (unit : CompilationUnit) (config : Config) : embedded (unit.rootCode config) = [] := by
  cases unit with
  | component unit =>
    rw [rootCode, Component.rootCode]
    cases unit.inlineMarkup <;> simp
  | page unit => simp [rootCode, Page.rootCode]

theorem mem_rootCode (injects : unit.InjectsMarkup) :
    .line (markupLine config unit.tree.children) ∈ unit.rootCode config := by
  cases unit with
  | component unit =>
    rw [rootCode, Component.rootCode, if_pos injects.1, tree, lines_markupLine]
    simp
  | page unit =>
    rw [rootCode, Page.rootCode, tree, lines_markupLine]
    simp

/-- The output of a unit has in it the text of code that embeds what the tree creates and mounts. -/
theorem compile_eq (compiled : unit.compile config = .ok output) (injects : unit.InjectsMarkup) :
    ∃ w code level, unit.tree.weave unitScope (begun (unit.rootCode config)) = (w, none) ∧
      (∀ part, .embed (unitScope.buffers part) ∈ code) ∧
      Contains output.code ((w.allocate.2.extend w.allocate.1 code).store.render level w.allocate.1) := by
  cases unit with
  | component unit =>
    obtain ⟨offset, found⟩ := Option.isSome_iff_exists.mp injects.2
    rw [compile] at compiled
    rcases ends : (unit.woven config).2 with _ | fault
    · have sound := Component.assemble_of_sound ends []
      simp only [found] at sound
      rw [sound] at compiled
      obtain rfl := Except.ok.inj compiled
      refine ⟨(unit.woven config).1, Component.memberCode unitScope, 1, Prod.ext rfl ends, fun part => ?_, ?_⟩
      · cases part <;> simp [Component.memberCode]
      · exact ((Contains.refl _).append_left _).append_right _
    · rw [Component.assemble_of_fault ends] at compiled
      cases compiled
  | page unit =>
    rw [compile, Page.assemble_eq] at compiled
    rcases woven : unit.body.withoutDefinitions.weave unitScope
      (begun (Page.rootCode config unit.body.withoutDefinitions)) with ⟨w, _ | fault⟩
    · simp only [woven] at compiled
      obtain rfl := Except.ok.inj compiled
      refine ⟨w, Page.programCode unitScope, 0, woven, fun part => ?_, ?_⟩
      · cases part <;> simp [Page.programCode]
      · exact (Contains.refl _).append_left _
    · simp [woven] at compiled

theorem contains_markupLine (compiled : unit.compile config = .ok output) (injects : unit.InjectsMarkup) :
    Contains output.code (markupLine config unit.tree.children) := by
  obtain ⟨w, code, level, done, embeds, rendered⟩ := compile_eq compiled injects
  refine rendered.trans (contains_render (unit.embedded_rootCode config) done (embeds .created) ?_ level)
  rw [content_begun (unit.embedded_rootCode config) done, if_pos rfl, Block.textsAll_append]
  exact List.mem_append_left _ (Store.mem_textsAll_expand (mem_rootCode injects))

/-- What sets the elements of the tree up stands in the output. -/
theorem contains_setup (compiled : unit.compile config = .ok output) (injects : unit.InjectsMarkup)
    {line : Origin × String} (member : line ∈ (unit.tree.emit none 0).setup) : Contains output.code line.2 := by
  obtain ⟨w, code, level, done, embeds, rendered⟩ := compile_eq compiled injects
  have bare := unit.embedded_rootCode config
  have among : ∃ part, line ∈ Traced.linesAll ((unit.tree.emit none 0).code part) := by
    rcases List.mem_append.mp member with created | mounted
    · exact ⟨.created, created⟩
    · exact ⟨.mounted, mounted⟩
  obtain ⟨part, inside⟩ := among
  refine rendered.trans (contains_render bare done (embeds part) ?_ level)
  rw [content_begun bare done, Block.textsAll_append, textsAll_forgetAll]
  exact List.mem_append_right _ (List.mem_map_of_mem inside)

end CompilationUnit

/-! ### Lookups -/

/-- The lines of a text stand in code, and there are some. -/
def HasLines (code text : String) : Prop :=
  (Code.lines text : List (Segment Unit)) ≠ [] ∧
    ∀ line, .line line ∈ (Code.lines text : List (Segment Unit)) → Contains code line

theorem hasLines_lookup {unit : CompilationUnit} {config : Config} {output : Output}
    (compiled : unit.compile config = .ok output) (injects : unit.InjectsMarkup) {path : List Nat} {visit : Visit}
    (visited : unit.tree.toNode.visit none 0 path = some visit) {info : Info} (given : visit.head.info = some info)
    {field : String} (named : info.field = some field) {elementId : String}
    (identified : visit.head.elementId? = some elementId) :
    HasLines output.code (lookupLine visit.root field elementId) := by
  refine ⟨Code.lines_ne_nil (mem_lookupLine _ _ _) rfl, fun line member => ?_⟩
  obtain ⟨place, written⟩ := List.mem_iff_getElem?.mp member
  have looks : ({ path, hook := .created, place := 0 + place }, line) ∈
      ownLines path .created 0 (Code.lines (lookupLine visit.root field elementId) : List (Segment Unit)) :=
    mem_ownLines.mpr ⟨place, rfl, written⟩
  have occurs := mem_setup [] visited (mem_code_of_lookup given named identified looks) (.inl rfl)
  exact CompilationUnit.contains_setup compiled injects occurs

/-- The markup and the lookups of a unit agree on all elements that have a start tag in the markup. The output has in
    it the line that gives the root its markup. It has the lookup of each element with a field, and the start tag that
    the markup has of such an element carries the id that the lookup searches for. There is such a start tag exactly
    for the elements other than the root that are not below a void tag, the tag of the root not counted. -/
theorem markup_carries_ids (unit : CompilationUnit) (config : Config) {output : Output}
    (compiled : unit.compile config = .ok output) (injects : unit.InjectsMarkup) :
    let pieces := piecesAll config.keepBlank [] 0 unit.tree.children
    Contains output.code (markupLine config unit.tree.children) ∧
      String.join (pieces.map Piece.text) = nodesMarkup config.keepBlank unit.tree.children ∧
      ∀ path visit info field, unit.tree.toNode.visit none 0 path = some visit → visit.head.info = some info →
        info.field = some field →
          ∃ elementId, visit.head.elementId? = some elementId ∧
            HasLines output.code (lookupLine visit.root field elementId) ∧
            ((∃ text, .start path text ∈ pieces) ↔
              path ≠ [] ∧ ∀ h ∈ visit.around.dropLast, Tag.isVoid h.tag = false) ∧
            ∀ text, .start path text ∈ pieces → ∃ before after,
              text = "<" ++ visit.head.tag ++ before ++ (" " ++ attributeMarkup "id" elementId) ++ after ++ ">" := by
  refine ⟨CompilationUnit.contains_markupLine compiled injects, join_piecesAll _ _ _ _, ?_⟩
  intro path visit info field visited given named
  obtain ⟨w, code, level, done, -, -⟩ := CompilationUnit.compile_eq compiled injects
  obtain ⟨elementId, identified⟩ := exists_elementId done visited given named
  refine ⟨elementId, identified, hasLines_lookup compiled injects visited given named identified, ?_, ?_⟩
  · constructor
    · rintro ⟨text, member⟩
      exact ((start_mem_children visited).mp member).2
    · intro shown
      exact ⟨visit.head.startTag, (start_mem_children visited).mpr ⟨rfl, shown⟩⟩
  · intro text member
    obtain ⟨rfl, -⟩ := (start_mem_children visited).mp member
    exact Head.contains_startTag identified

theorem compile_page (u : Page) (config : Config)
    (sound : (u.body.withoutDefinitions.weave unitScope
      (begun (Page.rootCode config u.body.withoutDefinitions))).2 = none) :
    ∃ output, (CompilationUnit.page u).compile config = .ok output := by
  rw [CompilationUnit.compile, Page.assemble_eq]
  rcases woven : u.body.withoutDefinitions.weave unitScope
    (begun (Page.rootCode config u.body.withoutDefinitions)) with ⟨w, _ | fault⟩
  · simp only
    exact ⟨_, rfl⟩
  · rw [woven] at sound
    cases sound

/-- A page with an input in a box that comes and goes. The id of the input needs escaping. -/
def greeting : Page where
  fileName := "greeting.html"
  body :=
    { head := { tag := "body" }
      children :=
        [.element { tag := "div", info := some { field := some "_box", elementId := some "box",
                                                 region := some (.conditional "open" "_stop") } }
          [.element { tag := "input", attrs := .ofList [("id", "a\"b"), ("type", "text")],
                      info := some { field := some "_name" } } []]] }

theorem markup_carries_ids_greeting :
    ∃ output, (CompilationUnit.page greeting).compile {} = .ok output ∧
      Contains output.code (markupLine {} greeting.body.children) ∧
      HasLines output.code "_name = _box_child.id == 'a\"b' ? _box_child : _box_child.query('#a\"b');" ∧
      ∃ text, .start [0, 0] text ∈ piecesAll false [] 0 greeting.body.children ∧ ∃ before after,
        text = "<" ++ "input" ++ before ++ (" " ++ attributeMarkup "id" "a\"b") ++ after ++ ">" := by
  obtain ⟨output, compiled⟩ := compile_page greeting {} (by decide +kernel)
  obtain ⟨injected, -, agree⟩ := markup_carries_ids (.page greeting) {} compiled trivial
  obtain ⟨elementId, identified, looks, shown, carries⟩ := agree [0, 0] _ _ "_name" rfl rfl rfl
  obtain rfl : "a\"b" = elementId := Option.some.inj identified
  obtain ⟨text, member⟩ := shown.mpr ⟨by decide, by decide +kernel⟩
  have line : lookupLine (some (conditionalRoot "_box")) "_name" "a\"b"
      = "_name = _box_child.id == 'a\"b' ? _box_child : _box_child.query('#a\"b');" := by decide +kernel
  rw [← line]
  exact ⟨output, compiled, injected, looks, text, member, carries text member⟩

/-- A page with fields for its body and for an element in a line break. -/
def hiddenFields : Page where
  fileName := "hidden.html"
  body :=
    { head := { tag := "body", info := some { field := some "_page", elementId := some "top" } }
      children :=
        [.element { tag := "br" }
          [.element { tag := "span", info := some { field := some "_note", elementId := some "deep" } } []]] }

/-- The root and what is below a void tag are looked up by ids that the markup does not have. -/
theorem markup_lacks_ids :
    let nodes := (CompilationUnit.page hiddenFields).tree.children
    ∃ output, (CompilationUnit.page hiddenFields).compile {} = .ok output ∧
      Contains output.code (markupLine {} nodes) ∧
      HasLines output.code "_page = _root.query('#top');" ∧ HasLines output.code "_note = _root.query('#deep');" ∧
      ¬ Contains (nodesMarkup false nodes) (" " ++ attributeMarkup "id" "top") ∧
      ¬ Contains (nodesMarkup false nodes) (" " ++ attributeMarkup "id" "deep") := by
  intro nodes
  obtain ⟨output, compiled⟩ := compile_page hiddenFields {} (by decide +kernel)
  have short : (nodesMarkup false nodes).length = 4 := by decide +kernel
  have absent : ∀ text : String, 4 < text.length → ¬ Contains (nodesMarkup false nodes) text := by
    rintro text longer ⟨front, back, split⟩
    have lengths := congrArg String.length split
    rw [short, String.length_append, String.length_append] at lengths
    omega
  have outer : HasLines output.code (lookupLine none "_page" "top") :=
    hasLines_lookup compiled trivial (show hiddenFields.body.toNode.visit none 0 [] = some _ from rfl) rfl rfl rfl
  have inner : HasLines output.code (lookupLine none "_note" "deep") :=
    hasLines_lookup compiled trivial (show hiddenFields.body.toNode.visit none 0 [0, 0] = some _ from rfl) rfl rfl rfl
  refine ⟨output, compiled, CompilationUnit.contains_markupLine compiled trivial, ?_, ?_, ?_, ?_⟩
  · have text : lookupLine none "_page" "top" = "_page = _root.query('#top');" := by decide +kernel
    rw [text] at outer
    exact outer
  · have text : lookupLine none "_note" "deep" = "_note = _root.query('#deep');" := by decide +kernel
    rw [text] at inner
    exact inner
  · exact absent _ (by decide +kernel)
  · exact absent _ (by decide +kernel)

end TemplateWeaver
