import TemplateWeaver.Proofs.Assembly.Insertion
import TemplateWeaver.Proofs.Assembly.Lookup

/-!
What is reported about a component. The warning about an empty shadow root is decided by whether the section of
declarations is empty. The declarations of elements in a repeated region do not go there, but the region itself needs a
field, which does: so the section is empty exactly if no element of the template has a field (`isEmpty_emit`). From
that, all diagnostics of a component are said in terms of its template and its user's code (`assemble_reports`).
-/
namespace TemplateWeaver

open Code (Block Segment)
open Source (ClassHead mask)

variable {β : Type}

/-! ### Empty sections -/

theorem Code.Block.isEmptyAll_append (front back : List Block) :
    isEmptyAll (front ++ back) = (isEmptyAll front && isEmptyAll back) := by
  induction front with
  | nil => rfl
  | cons block rest ih => rw [List.cons_append, isEmptyAll, isEmptyAll, ih, Bool.and_assoc]

/-- Code that begins with the lines of a text is not empty if the text is not blank. -/
theorem isEmptyAll_lines {text : String} {c : Char} (member : c ∈ text.toList) (solid : Text.isBlank c = false)
    (rest : List (Segment (List Traced))) (path : List Nat) (hook : Section) :
    Block.isEmptyAll (Traced.forgetAll (Traced.ofSegments path hook 0 (Code.lines text ++ rest))) = false := by
  have some : (Code.lines text : List (Segment (List Traced))) ≠ [] := Code.lines_ne_nil member solid
  rw [Code.lines] at some ⊢
  generalize ((Text.lines text).map Text.trim).filter (· ≠ "") = lines at some
  cases lines with
  | nil => exact absurd rfl some
  | cons first others => rfl

/-! ### Declarations of a template -/

namespace Head

/-- The generated field of an element. -/
def field? (h : Head) : Option String :=
  h.info.bind Info.field

theorem field?_eq_some {h : Head} {field : String} (named : h.field? = some field) :
    ∃ info, h.info = some info ∧ info.field = some field :=
  Option.bind_eq_some_iff.mp named

theorem region?_of_fieldless {h : Head} (absent : h.field? = none) : h.region? = none := by
  rcases h with ⟨tag, attrs, _ | info⟩
  · rfl
  · have nameless : info.field = none := absent
    simp [region?, nameless]

/-- An element without a field writes nothing. -/
theorem code_of_fieldless {h : Head} (absent : h.field? = none) (root : Option String) (next : Nat)
    (inner : Section → β) (part : Section) : h.code root next inner part = [] := by
  have own : (h.ownFeatures : List (Feature β)) = [] := by
    rcases h with ⟨tag, attrs, _ | info⟩
    · rfl
    · have nameless : info.field = none := absent
      simp [ownFeatures, nameless]
  rw [code, allFeatures, own, region?_of_fieldless absent]
  rfl

theorem passes_of_fieldless {h : Head} (absent : h.field? = none) (part : Section) : h.passes part = true := by
  rw [passes, region?_of_fieldless absent]

/-- An element with a field declares it first of all. -/
theorem code_declarations {h : Head} {field : String} {children : List Node} (named : h.field? = some field)
    (sound : h.fault? children = none) (root : Option String) (next : Nat) (inner : Section → β) :
    ∃ rest, h.code root next inner .declarations
      = Code.lines s!"{Names.typeName (Tag.domType h.tag)} {field};" ++ rest := by
  obtain ⟨info, given, called⟩ := field?_eq_some named
  rcases found : h.elementId? with _ | elementId
  · simp [fault?, given, called, found] at sound
  · rw [code, allFeatures, ownFeatures, given]
    simp only [called, found, Option.toList_some, List.map_cons, List.map_nil, List.cons_append, List.flatMap_cons]
    exact ⟨_, rfl⟩

end Head

mutual
/-- The declarations of a node are empty exactly if no element in it has a field, if none is at fault. -/
theorem isEmpty_emit (path : List Nat) (root : Option String) (next : Nat) (node : Node)
    (sound : ∀ stop ∈ node.stops path, stop.fault? = none) :
    Block.isEmptyAll (Traced.forgetAll ((node.emit path root next).code .declarations)) = true ↔
      ∀ stop ∈ node.stops path, stop.head.field? = none := by
  cases node with
  | text value => simp [Node.emit, Node.stops, Traced.forgetAll, Block.isEmptyAll]
  | element head children =>
    have here : head.fault? children = none := sound { path, head, children } (by simp [Node.stops])
    have below := isEmpty_emitAll path 0 (head.innerRoot root next) (head.innerNext next) children
      fun stop member => sound stop (by simp [Node.stops, member])
    rw [Node.emit, Node.stops, List.forall_mem_cons, ← below, Traced.forgetAll_append, Block.isEmptyAll_append]
    rcases named : head.field? with _ | field
    · rw [Head.code_of_fieldless named, Head.passes_of_fieldless named]
      simp [Traced.ofSegments, Traced.forgetAll, Block.isEmptyAll]
    · obtain ⟨rest, declares⟩ := Head.code_declarations named here root next
        (emitAll path 0 (head.innerRoot root next) (head.innerNext next) children).code
      have ends : ';' ∈ (s!"{Names.typeName (Tag.domType head.tag)} {field};").toList := by
        rw [String.toList_append]
        exact List.mem_append_right _ (by decide)
      rw [declares, isEmptyAll_lines ends rfl]
      simp
theorem isEmpty_emitAll (path : List Nat) (place : Nat) (root : Option String) (next : Nat) (nodes : List Node)
    (sound : ∀ stop ∈ stopsAll path place nodes, stop.fault? = none) :
    Block.isEmptyAll (Traced.forgetAll ((emitAll path place root next nodes).code .declarations)) = true ↔
      ∀ stop ∈ stopsAll path place nodes, stop.head.field? = none := by
  cases nodes with
  | nil => simp [emitAll, stopsAll, Traced.forgetAll, Block.isEmptyAll]
  | cons node rest =>
    have first := isEmpty_emit (path ++ [place]) root next node
      fun stop member => sound stop (List.mem_append_left _ member)
    have later := isEmpty_emitAll path (place + 1) root (node.emit (path ++ [place]) root next).next
      rest fun stop member => sound stop (List.mem_append_right _ member)
    rw [emitAll, stopsAll, List.forall_mem_append, ← first, ← later, Traced.forgetAll_append, Block.isEmptyAll_append,
      Bool.and_eq_true]
end

/-- The section of declarations stays empty exactly if no element of the template has a field. -/
theorem Component.isEmpty_declarations {u : Component} {config : Config} (ends : (u.woven config).2 = none) :
    (u.woven config).1.store.isEmpty (unitScope.buffers .declarations) = true ↔
      ∀ stop ∈ u.template.stops, stop.head.field? = none := by
  rcases walk : u.woven config with ⟨w, end_⟩
  rw [walk] at ends
  subst ends
  have done : u.template.weave unitScope (begun (u.rootCode config)) = (w, none) := walk
  have bare := (CompilationUnit.component u).embedded_rootCode config
  have content := content_begun bare done .declarations
  rw [if_neg (by decide), Code.Store.expand_nil, List.nil_append] at content
  have declares := isEmpty_emit [] none 0 u.template.toNode fun stop member => faultless_of_weave done [] member
  exact (iff_of_eq (congrArg (Block.isEmptyAll · = true) content)).trans declares

/-! ### Diagnostics -/

namespace Component

/-- The user's code, without its library directive, has no class head for the component. -/
def LacksClass (u : Component) : Prop :=
  IsEmpty (ClassHead u.className.toList (mask (Source.splitLibrary u.userCode).2).toList)

/-- The component looks for elements in a shadow root that nothing is put in. -/
def SearchesEmptyRoot (u : Component) : Prop :=
  u.shadowRoot = true ∧ u.inlineMarkup = false ∧ ∃ stop ∈ u.template.stops, stop.head.field?.isSome = true

end Component

/-- What is added to the diagnostics: this one if the condition holds, else none. -/
def OnlyIf (condition : Prop) (d : Diagnostic) (added : List Diagnostic) : Prop :=
  condition ∧ added = [d] ∨ ¬ condition ∧ added = []

theorem Component.warned_eq {u : Component} {config : Config} (ends : (u.woven config).2 = none)
    (log : List Diagnostic) :
    ∃ warnings, u.warned config log = log ++ warnings ∧ OnlyIf u.SearchesEmptyRoot u.emptyRootWarning warnings := by
  have searches : (u.shadowRoot && !u.inlineMarkup
      && !(u.woven config).1.store.isEmpty (unitScope.buffers .declarations)) = true ↔ u.SearchesEmptyRoot := by
    have fields := (isEmpty_declarations ends).not
    rw [Bool.not_eq_true] at fields
    rw [SearchesEmptyRoot, Bool.and_eq_true, Bool.and_eq_true, Bool.not_eq_true', Bool.not_eq_true', fields, and_assoc]
    simp [Option.isSome_iff_ne_none]
  rw [warned]
  split
  · rename_i holds
    exact ⟨_, rfl, .inl ⟨searches.mp holds, rfl⟩⟩
  · rename_i fails
    exact ⟨[], (List.append_nil log).symm, .inr ⟨fun holds => fails (searches.mpr holds), rfl⟩⟩

/-- The diagnostics of a component whose template has no fault. -/
theorem Component.log_of_sound {u : Component} {config : Config} (ends : (u.woven config).2 = none)
    (log : List Diagnostic) :
    (∃ code, (u.assemble config log).1 = .ok code) ∧
      ∃ warnings errors, (u.assemble config log).2 = log ++ warnings ++ errors ∧
        OnlyIf u.SearchesEmptyRoot u.emptyRootWarning warnings ∧ OnlyIf u.LacksClass u.missingClassError errors := by
  obtain ⟨warnings, warned, searches⟩ := warned_eq ends log
  have sound := assemble_of_sound ends log
  have lacks := Source.classBodyOffset?_eq_none_iff u.className (mask (Source.splitLibrary u.userCode).2)
  rcases found : Source.classBodyOffset? u.className (mask (Source.splitLibrary u.userCode).2) with _ | offset
  · simp only [found] at sound
    rw [sound]
    exact ⟨⟨_, rfl⟩, warnings, _, by rw [← warned], searches, .inl ⟨lacks.mp found, rfl⟩⟩
  · simp only [found] at sound
    rw [sound]
    have given : ¬ u.LacksClass := by
      intro none
      rw [lacks.mpr none] at found
      cases found
    exact ⟨⟨_, rfl⟩, warnings, [], by rw [← warned, List.append_nil], searches, .inr ⟨given, rfl⟩⟩

/-- Of what is added, only the missing class is an error. -/
theorem any_isError_iff {u : Component} {warnings errors : List Diagnostic}
    (searches : OnlyIf u.SearchesEmptyRoot u.emptyRootWarning warnings)
    (lacks : OnlyIf u.LacksClass u.missingClassError errors) :
    (warnings ++ errors).any Diagnostic.isError = true ↔ u.LacksClass := by
  rw [List.any_append, Bool.or_eq_true]
  have quiet : warnings.any Diagnostic.isError = false := by
    rcases searches with ⟨-, rfl⟩ | ⟨-, rfl⟩
    · rfl
    · rfl
  rcases lacks with ⟨holds, rfl⟩ | ⟨fails, rfl⟩
  · exact iff_of_true (.inr rfl) holds
  · exact iff_of_false (by simp [quiet]) fails

theorem Component.hasErrors_iff {u : Component} {config : Config} (ends : (u.woven config).2 = none) :
    ∃ output, (CompilationUnit.component u).compile config = .ok output ∧ (output.hasErrors = true ↔ u.LacksClass) := by
  obtain ⟨⟨code, compiled⟩, warnings, errors, log, searches, lacks⟩ := log_of_sound ends []
  rcases assembled : u.assemble config [] with ⟨result, diagnostics⟩
  rw [assembled] at compiled log
  subst compiled
  refine ⟨{ fileName := u.fileName, code, diagnostics }, by rw [CompilationUnit.compile, assembled], ?_⟩
  rw [Output.hasErrors, show diagnostics = warnings ++ errors from log]
  exact any_isError_iff searches lacks

theorem Page.not_hasErrors {u : Page} {config : Config} {output : Output}
    (compiled : (CompilationUnit.page u).compile config = .ok output) : output.hasErrors = false := by
  rw [CompilationUnit.compile] at compiled
  split at compiled
  · cases compiled
    rfl
  · cases compiled

/-- The diagnostics of a component, exactly. It comes to nothing if and only if its template has a fault, and leaves the
    diagnostics alone then. Otherwise a warning is added if it looks for elements in an empty shadow root, and behind it
    an error if its class is missing, both with the file of the component. So the output of a unit has errors exactly
    for a component without a fault and without a class. -/
theorem assemble_reports (scope : Scope) (w : Workspace) :
    (∀ (u : Component) (config : Config) (log : List Diagnostic),
      (∀ fault, (u.assemble config log).1 = .error fault ↔ (u.template.weave scope w).2 = some fault) ∧
      ((u.template.weave scope w).2 ≠ none → (u.assemble config log).2 = log) ∧
      ((u.template.weave scope w).2 = none → (∃ code, (u.assemble config log).1 = .ok code) ∧
        ∃ warnings errors, (u.assemble config log).2 = log ++ warnings ++ errors ∧
          OnlyIf u.SearchesEmptyRoot u.emptyRootWarning warnings ∧ OnlyIf u.LacksClass u.missingClassError errors) ∧
      (u.emptyRootWarning.severity = .warning ∧ u.emptyRootWarning.file = some u.fileName) ∧
      u.missingClassError.severity = .error ∧ u.missingClassError.file = some u.fileName) ∧
    ∀ (unit : CompilationUnit) (config : Config),
      (∃ output, unit.compile config = .ok output ∧ output.hasErrors = true) ↔
        ∃ u, unit = .component u ∧ (u.template.weave scope w).2 = none ∧ u.LacksClass := by
  constructor
  · intro u config log
    have same := u.fault_woven config scope w
    rw [← same]
    refine ⟨fun fault => ?_, ?_, fun ends => Component.log_of_sound ends log, ⟨rfl, rfl⟩, rfl, rfl⟩
    · rcases ends : (u.woven config).2 with _ | other
      · obtain ⟨⟨code, compiled⟩, -⟩ := Component.log_of_sound ends log
        simp [compiled]
      · simp [Component.assemble_of_fault ends log]
    · intro some
      obtain ⟨fault, ends⟩ := Option.ne_none_iff_exists'.mp some
      rw [Component.assemble_of_fault ends log]
  · intro unit config
    constructor
    · rintro ⟨output, compiled, errors⟩
      cases unit with
      | page u =>
        rw [Page.not_hasErrors compiled] at errors
        cases errors
      | component u =>
        refine ⟨u, rfl, ?_⟩
        rw [← u.fault_woven config scope w]
        rcases ends : (u.woven config).2 with _ | fault
        · obtain ⟨other, result, lacks⟩ := Component.hasErrors_iff ends
          rw [result] at compiled
          cases compiled
          exact ⟨rfl, lacks.mp errors⟩
        · rw [CompilationUnit.compile, Component.assemble_of_fault ends] at compiled
          cases compiled
    · rintro ⟨u, rfl, ends, lacking⟩
      obtain ⟨output, compiled, lacks⟩ := Component.hasErrors_iff ((u.fault_woven config scope w).trans ends)
      exact ⟨output, compiled, lacks.mpr lacking⟩

/-- A list in a shadow root, of items with a field each, and code without the class that it names. -/
def shadowList : Component where
  fileName := "list.html"
  className := "List"
  userCode := "// class List \x7b"
  shadowRoot := true
  template :=
    { head := { tag := "template" }
      children :=
        [.element
          { tag := "ul", info := some { field := some "list", elementId := some "list",
                                        region := some (.repeated "item" "items" "stopList") } }
          [.element { tag := "li", info := some { field := some "row", elementId := some "row" } } []]] }

theorem assemble_reports_shadowList :
    let earlier : Diagnostic := { severity := .error, message := "earlier" }
    (shadowList.assemble {} [earlier]).2 = [earlier, shadowList.emptyRootWarning, shadowList.missingClassError] ∧
      ∃ output, (CompilationUnit.component shadowList).compile {} = .ok output ∧ output.hasErrors = true := by
  intro earlier
  have sound : (shadowList.template.weave unitScope (begun [])).2 = none := by decide +kernel
  have lacking : shadowList.LacksClass := by
    refine (Source.classBodyOffset?_eq_none_iff _ _).mp ?_
    decide +kernel
  have searching : shadowList.SearchesEmptyRoot := ⟨rfl, rfl, by decide +kernel⟩
  obtain ⟨reports, errors⟩ := assemble_reports unitScope (begun [])
  obtain ⟨-, warnings, added, log, searches, lacks⟩ := (reports shadowList {} [earlier]).2.2.1 sound
  refine ⟨?_, (errors (.component shadowList) {}).mpr ⟨shadowList, rfl, sound, lacking⟩⟩
  rcases searches with ⟨-, rfl⟩ | ⟨fails, -⟩
  · rcases lacks with ⟨-, rfl⟩ | ⟨fails, -⟩
    · exact log
    · exact absurd lacking fails
  · exact absurd searching fails

end TemplateWeaver
