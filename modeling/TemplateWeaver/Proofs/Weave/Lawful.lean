import TemplateWeaver.Proofs.Weave.Neat

/-!
Templates whose names are legal and whose texts are closed. Weaving such a template keeps every
buffer of a workspace neat (`weave_neat`), and the text of a neat buffer leads the reader from code
back to code, with as many opening as closing braces (`whole_render`).
-/
namespace TemplateWeaver

open Code (Block BufferId Segment Store expandWith)
open Source (Closed Draft Plain State Whole Word isMemberName)

variable {β : Type}

/-! ### Lawful templates -/

structure ComponentUse.Lawful (use : ComponentUse) : Prop where
  className : isMemberName use.className = true
  values : ∀ value ∈ use.values.entries, isMemberName value.1 = true ∧ Closed value.2

def Region.Lawful : Region → Prop
  | .conditional condition stopper => Closed condition ∧ isMemberName stopper = true
  | .repeated item collection stopper =>
    isMemberName item = true ∧ Closed collection ∧ isMemberName stopper = true

/-- The names that the metadata gives are legal, and the texts that it brings are closed. Element ids,
    events and attributes may be named as they like. -/
structure Info.Lawful (info : Info) : Prop where
  field : ∀ field ∈ info.field, isMemberName field = true
  listeners : ∀ entry ∈ eventListeners info.events, isMemberName entry.2.field = true ∧ Closed entry.2.action
  attributes : ∀ entry ∈ info.attributes.entries, ∀ binding ∈ entry.2.bindings, binding.Lawful
  content : ∀ binding ∈ info.content, binding.Lawful
  component : ∀ use ∈ info.component, use.Lawful
  region : ∀ region ∈ info.region, region.Lawful

def Head.Lawful (h : Head) : Prop :=
  ∀ info ∈ h.info, info.Lawful

mutual
/-- Every element of a node is lawful. -/
def Node.Lawful : Node → Prop
  | .text _ => True
  | .element head children => head.Lawful ∧ LawfulAll children
def LawfulAll : List Node → Prop
  | [] => True
  | node :: rest => node.Lawful ∧ LawfulAll rest
end

/-! ### What an element writes -/

section
variable {h : Head} {root : Option String} {next : Nat} {inner : Section → β}

theorem neat_ownFeatures (lawful : h.Lawful) (found : ∀ start ∈ root, Plain start 0) {feature : Feature β}
    (member : feature ∈ h.ownFeatures) (part : Section) : Neat (feature.code root part) 0 0 := by
  rw [Head.ownFeatures] at member
  rcases given : h.info with _ | info
  · simp [given] at member
  obtain ⟨names, listeners, attributes, content, component, -⟩ := lawful info given
  rcases called : info.field with _ | field
  · simp [given, called] at member
  have name : Word field := .name (names field called)
  simp only [given, called, List.mem_append] at member
  rcases member with ((element | listening) | bound) | holding
  · obtain ⟨elementId, -, rfl⟩ := List.mem_map.mp element
    exact neat_elementCode name (.name (isMemberName_domType h.tag)) found part
  · split at listening
    · simp at listening
    · obtain rfl := List.mem_singleton.mp listening
      refine neat_listenersCode name (fun entry inside => ?_) part
      exact ⟨.name (listeners entry inside).1, (listeners entry inside).2⟩
  · split at bound
    · simp at bound
    · obtain rfl := List.mem_singleton.mp bound
      exact neat_bindingsCode name.toPlain attributes content part
  · obtain ⟨use, used, rfl⟩ := List.mem_map.mp holding
    obtain ⟨className, values⟩ := component use (by simpa using used)
    refine neat_componentCode name (.name className) (fun value inside => ?_) part
    exact ⟨.name (values value inside).1, (values value inside).2⟩

theorem plain_itemRoot (next : Nat) : Plain (Region.itemRoot next) 0 := by
  have digits : Plain (toString next) 0 := by
    refine .ofPlainChars Nat.repr_ne_empty fun c member => Source.isPlain_of_isNameStart (.inr ?_)
    have decimal : c ∈ Nat.toDigits 10 next := by simpa using member
    exact Nat.isDigit_of_mem_toDigits (by decide) (by decide) decimal
  exact (Draft.fixed.append digits.draft).plain rfl

theorem word_region (lawful : h.Lawful) {field : String} {region : Region} (given : h.region? = some (field, region)) :
    Word field ∧ region.Lawful := by
  simp only [Head.region?, Option.bind_eq_bind, Option.bind_eq_some_iff, Option.pure_def, Option.some.injEq,
    Prod.mk.injEq] at given
  obtain ⟨info, found, name, called, kind, has, rfl, rfl⟩ := given
  obtain ⟨names, -, -, -, -, regions⟩ := lawful info found
  exact ⟨.name (names _ called), regions _ has⟩

theorem neat_code (lawful : h.Lawful) (found : ∀ start ∈ root, Plain start 0) (part : Section) :
    Neat (h.code root next inner part) 0 0 := by
  refine .flatMap fun feature member => ?_
  rcases List.mem_append.mp member with own | last
  · exact neat_ownFeatures lawful found own part
  · obtain ⟨⟨field, region⟩, given, rfl⟩ := List.mem_map.mp last
    obtain ⟨name, legal⟩ := word_region lawful (by simpa using given)
    cases region with
    | conditional condition stopper => exact neat_conditionalCode name (.name legal.2) legal.1 part
    | «repeated» item collection stopper =>
      exact neat_repeatedCode name legal.1 (.name legal.2.2) (plain_itemRoot next) legal.2.1 part

/-- The children of an element are found from a variable with a legal name, if the element is. -/
theorem plain_innerRoot (lawful : h.Lawful) (found : ∀ start ∈ root, Plain start 0) :
    ∀ start ∈ h.innerRoot root next, Plain start 0 := by
  intro start member
  rw [Head.innerRoot] at member
  rcases given : h.region? with _ | ⟨field, region⟩
  · simp only [given] at member
    exact found start member
  · simp only [given, Option.mem_some_iff] at member
    obtain ⟨name, -⟩ := word_region lawful given
    subst member
    cases region with
    | conditional condition stopper => exact name.ahead.plain rfl
    | «repeated» item collection stopper => exact plain_itemRoot next

end

/-! ### Weaving -/

/-- Every buffer from a number on is neat and closes the braces that it opens. -/
def NeatFrom (bound : Nat) (store : Store) : Prop :=
  ∀ b, bound ≤ b.index → Neat (store.segments b) 0 0

theorem NeatFrom.extend {bound : Nat} {store : Store} (neat : NeatFrom bound store) (b : BufferId)
    {added : List (Segment BufferId)} (more : Neat added 0 0) : NeatFrom bound (store.extend b added) := by
  intro c above
  by_cases other : b = c
  · subst other
    by_cases inside : b.index < store.size
    · rw [Store.segments_extend_self store b added inside]
      exact (neat b above).append more
    · rw [Store.segments_eq_nil (by rw [Store.size_extend]; omega)]
      exact .nil
  · rw [Store.segments_extend_of_ne store added other]
    exact neat c above

section
variable {bound : Nat} {scope : Scope} {w w' : Workspace} {head : Head} {inner : Section → BufferId}

theorem Enters.neat (enters : Enters head scope w w' inner) (lawful : head.Lawful)
    (found : ∀ start ∈ scope.queryRoot, Plain start 0) (neat : NeatFrom bound w.store) :
    NeatFrom bound w'.store := by
  intro b above
  by_cases ours : ∃ part, b = scope.buffers part
  · obtain ⟨part, rfl⟩ := ours
    rw [enters.own]
    exact (neat _ above).append (neat_code lawful found part)
  · rw [enters.others b fun part same => ours ⟨part, same⟩]
    exact neat b above

end

mutual
/-- Weaving a lawful template keeps a workspace neat, whether or not it comes to an end. -/
theorem weave_neat {bound : Nat} {scope : Scope} {w : Workspace} (fits : scope.Fits w)
    (found : ∀ start ∈ scope.queryRoot, Plain start 0) (neat : NeatFrom bound w.store) (node : Node)
    (lawful : node.Lawful) : NeatFrom bound (node.weave scope w).1.store := by
  cases node with
  | text value => exact neat
  | element head children =>
    rcases weave_element fits head children with ⟨fault, stopped⟩ | ⟨inner, w', enters, goes⟩
    · rw [stopped]
      exact neat
    · rw [goes]
      exact weaveAll_neat (enters.fits_childScope fits) (plain_innerRoot lawful.1 found)
        (enters.neat lawful.1 found neat) children lawful.2
theorem weaveAll_neat {bound : Nat} {scope : Scope} {w : Workspace} (fits : scope.Fits w)
    (found : ∀ start ∈ scope.queryRoot, Plain start 0) (neat : NeatFrom bound w.store) (nodes : List Node)
    (lawful : LawfulAll nodes) : NeatFrom bound (weaveAll scope w nodes).1.store := by
  cases nodes with
  | nil => exact neat
  | cons node rest =>
    have grows := weave_grows fits node
    have first := weave_neat fits found neat node lawful.1
    rw [weaveAll]
    rcases result : node.weave scope w with ⟨w', _ | fault⟩
    · rw [result] at grows first
      exact weaveAll_neat (fits.mono grows.size (Nat.le_of_eq grows.counters.symm)) found first rest lawful.2
    · rw [result] at first
      exact first
end

/-! ### Layout -/

theorem whole_layout (base depth : Nat) {text : String} (rests : (State.code.after text.toList).atRest = true) :
    Whole (Block.layout base depth (.line text)) (State.code.balance text.toList) := by
  have indented : Whole (Code.indent (base + Code.lineLevel depth text)) 0 := by
    refine .blank fun c member => ?_
    rw [Code.indent, String.toList_ofList] at member
    rw [(List.mem_replicate.mp member).2]
    rfl
  have whole := indented.append (Whole.line ⟨rests, rfl⟩)
  rw [Block.layout, String.append_assoc]
  rwa [Int.zero_add] at whole

/-- Segments that leave the reader at rest are laid out as a whole text, if what they embed is. -/
theorem whole_layoutAll {f : BufferId → List Block}
    (embedded : ∀ b base depth, Whole (Block.layoutAll base depth (f b)) 0) (segments : List (Segment BufferId))
    (rests : ∀ text, Segment.line text ∈ segments → (State.code.after text.toList).atRest = true) (base depth : Nat) :
    Whole (Block.layoutAll base depth (expandWith f segments)) (segments.map Segment.braces).sum := by
  induction segments generalizing depth with
  | nil => exact ⟨rfl, rfl⟩
  | cons segment rest ih =>
    rw [List.map_cons, List.sum_cons]
    refine Whole.append ?_ (ih (fun text member => rests text (by simp [member])) _)
    cases segment with
    | line text => exact whole_layout base depth (rests text (by simp))
    | embed b => exact embedded b (base + depth) 0

/-- The text of a neat buffer leads from code back to code, and its braces balance. -/
theorem whole_render {store : Store} (neat : NeatFrom 0 store) (level : Nat) (b : BufferId) :
    Whole (store.render level b) 0 := by
  have unrolled : ∀ fuel b base depth, Whole (Block.layoutAll base depth (store.unroll fuel b)) 0 := by
    intro fuel
    induction fuel with
    | zero => exact fun b base depth => ⟨rfl, rfl⟩
    | succ fuel ih =>
      intro b base depth
      have own := neat b (Nat.zero_le _)
      rw [← own.balance]
      exact whole_layoutAll ih (store.segments b) own.rests base depth
  exact unrolled store.size b level 0

end TemplateWeaver
