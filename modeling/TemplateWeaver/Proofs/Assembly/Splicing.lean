import TemplateWeaver.Assembly.Component
import TemplateWeaver.Proofs.Source.ClassHead
import TemplateWeaver.Proofs.Source.LibraryName
import TemplateWeaver.Proofs.Weave.Lawful

/-!
Splicing generated members into user code. The preamble and the members of a lawful component are
whole texts, and so is the user's code before the class body. So the parts of the output are read one
by one as if each stood alone (`mask_assemble`): no user code ends up in a comment or a literal that
generated code has opened, nor generated code in one of the user's.
-/
namespace TemplateWeaver

open Code (BufferId Segment)
open Source (Closed Comment Draft Lead Line Plain State Whole Word isMemberName literal mask)

/-! ### The preamble -/

/-- The library name of a file is plain, whatever the file is called. -/
theorem plain_libraryName (fileName : String) : Plain (Source.libraryName fileName) 0 := by
  have legal := Source.libraryName_legal fileName
  exact .ofPlainChars legal.nonempty fun c member => Source.isPlain_of_isLibraryNameChar (legal.chars c member)

theorem plain_importLine {i : LibraryImport} (legal : ∀ name ∈ i.name, isMemberName name = true) : Plain i.line 0 := by
  rw [LibraryImport.line]
  rcases given : i.name with _ | name
  · exact Draft.fixed.quote.plain rfl
  · have prefixed : Plain name 0 := .name (legal name given)
    exact (Draft.fixed.quote.slot prefixed).plain rfl

/-- Lines that leave the reader at rest, each ended by a line feed, lead back to code. -/
theorem after_intercalate {lines : List String} (rests : ∀ line ∈ lines, (State.code.after line.toList).atRest = true) :
    State.code.after ("\n".intercalate lines ++ "\n").toList = .code := by
  induction lines with
  | nil => rfl
  | cons line lines ih =>
    have first : State.code.after (line ++ "\n").toList = .code := (Whole.line ⟨rests line (by simp), rfl⟩).after
    cases lines with
    | nil => simpa using first
    | cons next lines =>
      rw [String.intercalate_cons_of_ne_nil (by simp), String.append_assoc, String.toList_append, State.after_append,
        first]
      exact ih fun other member => rests other (by simp [member])

/-- The preamble leads from code back to code. -/
theorem after_preamble {config : Config} {fileName : String} (flat : '\n' ∉ fileName.toList)
    (legal : ∀ i ∈ config.imports, ∀ name ∈ i.name, isMemberName name = true) (references : List ComponentUse) :
    State.code.after
      (preamble config fileName (Source.libraryDirective none none fileName) references).toList = .code := by
  refine after_intercalate fun line member => ?_
  have empty : Line "" 0 := ⟨rfl, rfl⟩
  simp only [List.mem_append, List.mem_cons, List.mem_map, List.not_mem_nil, or_false] at member
  rcases member with (((banner | rfl | rfl) | ⟨i, imported, rfl⟩) | reference) | rfl
  · split at banner
    · simp only [bannerLines, List.mem_cons, List.not_mem_nil, or_false] at banner
      rcases banner with rfl | rfl | rfl
      · exact (Comment.append (Comment.append (.fixed rfl) flat) (by decide)).line.rests
      · exact (Comment.fixed rfl).line.rests
      · exact empty.rests
    · simp at banner
  · exact ((plain_libraryName fileName).within.plain rfl).line.rests
  · exact empty.rests
  · exact (plain_importLine (legal i imported)).line.rests
  · obtain ⟨file, -, rfl⟩ := List.mem_map.mp reference
    exact (Draft.fixed.quote.plain rfl).line.rests
  · exact empty.rests

/-! ### The members -/

theorem fits_begun (rootCode : List (Segment BufferId)) : unitScope.Fits (begun rootCode) :=
  (({} : Workspace).fits_newScope none).mono (by simp [begun]) (by simp [begun])

namespace Component

/-- The workspace with the code of a component's template, and the fault that ended the walk. -/
def woven (u : Component) (config : Config) : Workspace × Option Fault :=
  u.template.weave unitScope (begun (u.rootCode config))

/-- The text of the members that a component gets. -/
def members (u : Component) (config : Config) : String :=
  let (members, w) := (u.woven config).1.allocate
  (w.extend members (memberCode unitScope)).store.render 1 members

theorem neat_rootCode (u : Component) (config : Config) : Neat (u.rootCode config) 0 0 := by
  have root : Word Names.root := ⟨Draft.fixed.plain rfl, .fixed rfl⟩
  have host : Plain (if u.shadowRoot then "createShadowRoot()" else "this") 0 := by
    cases u.shadowRoot
    · exact Draft.fixed.plain rfl
    · exact Draft.fixed.plain rfl
  rw [rootCode]
  cases u.inlineMarkup
  · exact .append (.top (.slot (.within root.toPlain rfl) host) rfl) .nil
  · exact .append (.top (.slot (.within root.toPlain rfl) host) rfl) (.top (Lead.word root).quote rfl)

theorem neat_memberCode (scope : Scope) : Neat (memberCode scope) 0 0 := by
  have method : ∀ {hook : String} {b : BufferId}, Plain hook 0 →
      Neat (Code.lines ("void " ++ hook ++ "() \x7b") ++ [.embed b] ++ Code.lines "\x7d") 0 0 :=
    fun name => .fit (.append (.append (.lead (.within name rfl) rfl) (.embed .nil (by decide))) (.draft .fixed rfl))
      (by decide) rfl
  exact .append (.append (.append (.append
    (.comment (.fixed rfl))
    (.embed .nil (by decide)))
    (method (Draft.fixed.plain rfl)))
    (method (Draft.fixed.plain rfl)))
    (method (Draft.fixed.plain rfl))

/-- The members of a lawful component lead from code back to code, and their braces balance. -/
theorem whole_members {u : Component} (lawful : u.template.toNode.Lawful) (config : Config) :
    Whole (u.members config) 0 := by
  have empty : NeatFrom 0 (({} : Workspace).newScope none).2.store := by
    intro b _
    rw [Workspace.segments_newScope]
    exact .nil
  have started : NeatFrom 0 (begun (u.rootCode config)).store :=
    empty.extend (unitScope.buffers .created) (neat_rootCode u config)
  have neat : NeatFrom 0 (u.woven config).1.store :=
    weave_neat (fits_begun _) (by simp [unitScope, Workspace.newScope]) started u.template.toNode lawful
  have allocated : NeatFrom 0 (u.woven config).1.allocate.2.store := by
    intro b above
    rw [Head.segments_allocate]
    exact neat b above
  exact whole_render (allocated.extend _ (neat_memberCode unitScope)) 1 _

/-- The diagnostics, with a warning behind them if a shadow root stays empty that elements are looked for in. -/
def warned (u : Component) (config : Config) (log : List Diagnostic) : List Diagnostic :=
  if u.shadowRoot && !u.inlineMarkup && !(u.woven config).1.store.isEmpty (unitScope.buffers .declarations) then
    log ++ [u.emptyRootWarning]
  else log

theorem assemble_of_fault {u : Component} {config : Config} {fault : Fault} (ends : (u.woven config).2 = some fault)
    (log : List Diagnostic) : u.assemble config log = (.error fault, log) := by
  rcases walk : u.woven config with ⟨w, end_⟩
  rw [walk] at ends
  subst ends
  rw [woven] at walk
  simp only [assemble, walk]

/-- A component without a fault is its preamble and the user's code with the members behind the brace of the class, or
    the user's code as it is. -/
theorem assemble_of_sound {u : Component} {config : Config} (ends : (u.woven config).2 = none) (log : List Diagnostic) :
    let code := (Source.splitLibrary u.userCode).2
    let library := Source.libraryDirective (Source.splitLibrary u.userCode).1 none u.fileName
    u.assemble config log = match Source.classBodyOffset? u.className (mask code) with
      | none => (.ok u.userCode, u.warned config log ++ [u.missingClassError])
      | some offset =>
        (.ok (preamble config u.fileName library u.references ++ Text.takeBytes code offset ++ "\n"
          ++ u.members config ++ Text.dropBytes code offset), u.warned config log) := by
  rw [members, warned]
  rcases walk : u.woven config with ⟨w, end_⟩
  rw [walk] at ends
  subst ends
  rw [woven] at walk
  rcases split : Source.splitLibrary u.userCode with ⟨directive, code⟩
  rcases found : Source.classBodyOffset? u.className (mask code) with _ | offset
  · simp only [assemble, walk, split, found]
  · simp only [assemble, walk, split, found]

/-- A component without a library directive is its preamble and the user's code, with the members
    behind the brace of the class, unless an element is at fault. -/
theorem assemble_eq {u : Component} {offset : Nat} (config : Config) (log : List Diagnostic)
    (undirected : (Source.splitLibrary u.userCode).1 = none)
    (found : Source.classBodyOffset? u.className (mask u.userCode) = some offset) :
    (u.assemble config log).1 = match (u.woven config).2 with
      | some fault => .error fault
      | none => .ok (preamble config u.fileName (Source.libraryDirective none none u.fileName) u.references
        ++ Text.takeBytes u.userCode offset ++ "\n" ++ u.members config ++ Text.dropBytes u.userCode offset) := by
  have whole : Source.splitLibrary u.userCode = (none, u.userCode) := by
    rw [Source.splitLibrary] at undirected ⊢
    split at undirected
    · cases undirected
    · rfl
  rcases ends : (u.woven config).2 with _ | fault
  · have sound := assemble_of_sound ends log
    simp only [whole, found] at sound
    rw [sound]
  · rw [assemble_of_fault ends]

end Component

/-- Splicing changes nothing about how code is read. The output of a lawful component is the preamble,
    the user's code up to the brace of the class, the members and the rest of the user's code, and
    masking it masks each of these as if it stood alone. The members close all braces that they
    open. -/
theorem mask_assemble (u : Component) (config : Config) (log : List Diagnostic) {code : String} {offset : Nat}
    (compiled : (u.assemble config log).1 = .ok code)
    (found : Source.classBodyOffset? u.className (mask u.userCode) = some offset)
    (undirected : (Source.splitLibrary u.userCode).1 = none) (flat : '\n' ∉ u.fileName.toList)
    (legal : ∀ i ∈ config.imports, ∀ name ∈ i.name, isMemberName name = true)
    (lawful : u.template.toNode.Lawful) :
    let opening := preamble config u.fileName (Source.libraryDirective none none u.fileName) u.references
    code = opening ++ Text.takeBytes u.userCode offset ++ "\n" ++ u.members config
        ++ Text.dropBytes u.userCode offset
      ∧ mask code = mask opening ++ Text.takeBytes (mask u.userCode) offset ++ "\n" ++ mask (u.members config)
        ++ Text.dropBytes (mask u.userCode) offset
      ∧ (mask (u.members config)).toList.count '{' = (mask (u.members config)).toList.count '}' := by
  intro opening
  have parts : code = opening ++ Text.takeBytes u.userCode offset ++ "\n" ++ u.members config
      ++ Text.dropBytes u.userCode offset := by
    rw [Component.assemble_eq config log undirected found] at compiled
    split at compiled
    · cases compiled
    · exact (Except.ok.inj compiled).symm
  have begins : State.code.after opening.toList = .code := after_preamble flat legal u.references
  have whole := Component.whole_members lawful config
  obtain ⟨front, back, -, ends, takes, drops, masksFront, masksBack⟩ := Source.classBody_split found
  refine ⟨parts, ?_, ?_⟩
  · have feed : State.code.after ("\n" : String).toList = .code := rfl
    rw [parts, takes, drops, masksFront, masksBack]
    simp only [String.append_assoc]
    rw [Source.mask_append begins, Source.mask_append ends, Source.mask_append feed, Source.mask_append whole.after]
    rfl
  · have balance := State.balance_eq .code (u.members config).toList
    rw [whole.balance] at balance
    rw [Source.mask_eq, String.toList_ofList]
    omega

/-- A component whose user code and expressions have comments at their ends and braces in comments and
    literals. -/
def counter : Component where
  fileName := "counter.html"
  className := "Counter"
  userCode := "// class Counter \x7b\nclass Counter \x7b\n  var close = '\x7d';\n\x7d\n"
  template :=
    { head :=
        { tag := "button"
          info := some
            { field := some "_button"
              elementId := some "count"
              events := .ofList [("click", [{ action := "count++; // once more", field := "_listener" }])]
              content := some { expression := "'\x7b' + \"$count\" // shown", stopper := "_stopper" } } } }

theorem counter_lawful : counter.template.toNode.Lawful := by
  have action : Closed "count++; // once more" := Line.closed ⟨by decide +kernel, by decide +kernel⟩
  have expression : Closed "'\x7b' + \"$count\" // shown" := Line.closed ⟨by decide +kernel, by decide +kernel⟩
  refine ⟨fun info given => ?_, trivial⟩
  obtain rfl := Option.some.inj given
  refine ⟨?_, ?_, ?_, ?_, ?_, ?_⟩
  · intro field called
    obtain rfl := Option.some.inj called
    decide +kernel
  · intro entry member
    obtain rfl := List.mem_singleton.mp member
    exact ⟨by decide +kernel, action⟩
  · intro entry member
    cases member
  · intro binding given
    obtain rfl := Option.some.inj given
    exact ⟨by decide +kernel, expression⟩
  · simp
  · simp

theorem counter_undirected : (Source.splitLibrary counter.userCode).1 = none := by
  have masked : Source.directiveSpan? (mask counter.userCode) = none := by
    rw [Source.mask_eq]
    decide +kernel
  rw [Source.splitLibrary, masked]

theorem counter_found : Source.classBodyOffset? counter.className (mask counter.userCode) = some 34 := by
  rw [Source.mask_eq]
  decide +kernel

theorem counter_woven : (counter.woven {}).2 = none := by
  decide +kernel

theorem legal_imports : ∀ i ∈ ({} : Config).imports, ∀ name ∈ i.name, isMemberName name = true := by
  intro i member name given
  have called : name = Names.library := by
    simp only [List.mem_cons, List.not_mem_nil, or_false] at member
    rcases member with rfl | rfl <;> exact (Option.some.inj given).symm
  rw [called]
  decide +kernel

theorem mask_assemble_counter :
    ∃ code, (counter.assemble {} []).1 = .ok code
      ∧ Source.classBodyOffset? counter.className (mask counter.userCode) = some 34
      ∧ counter.template.toNode.Lawful
      ∧ mask code
        = mask (preamble {} "counter.html" (Source.libraryDirective none none "counter.html") [])
          ++ Text.takeBytes (mask counter.userCode) 34 ++ "\n" ++ mask (counter.members {})
          ++ Text.dropBytes (mask counter.userCode) 34
      ∧ (mask (counter.members {})).toList.count '{' = (mask (counter.members {})).toList.count '}' := by
  have compiled := Component.assemble_eq {} [] counter_undirected counter_found
  rw [counter_woven] at compiled
  obtain ⟨-, masked, balanced⟩ := mask_assemble counter {} [] compiled counter_found counter_undirected
    (by decide +kernel) legal_imports counter_lawful
  exact ⟨_, compiled, counter_found, counter_lawful, masked, balanced⟩

end TemplateWeaver
