import TemplateWeaver.Proofs.Code.Lines
import TemplateWeaver.Proofs.Weave.Growth

/-!
Weaving into live buffers comes to the same as putting code in its place by value. What a walk without
fault adds to the buffers of its scope stands, once all is written, for the code of the by-value
recursion (`weave_adds`), although regions embed the buffers of their children before anything is in
them and an inner buffer may be embedded twice.
-/
namespace TemplateWeaver

open Code (Block BufferId Segment Store)

/-- What was added to the buffers of a scope stands for the code of an emission, all that it embeds is
    new, and the counter stands where the emission leaves it. -/
structure Adds (scope : Scope) (w w' : Workspace) (emission : Emission) : Prop where
  code : ∀ part, ∃ added,
    w'.store.segments (scope.buffers part) = w.store.segments (scope.buffers part) ++ added ∧
      (∀ c, .embed c ∈ added → w.store.size ≤ c.index ∧ c.index < w'.store.size) ∧
      w'.store.expand added = Traced.forgetAll (emission.code part)
  next : w'.peek scope.counter = emission.next

section
variable {scope : Scope} {w w' w'' : Workspace}

/-- Later growth in a scope leaves the buffers alone that an earlier one made. -/
theorem Grows.content_eq (first : Grows scope w w') (second : Grows scope w' w'') (fits : scope.Fits w)
    (acyclic : w.store.Acyclic) {c : BufferId} (new : w.store.size ≤ c.index) (inside : c.index < w'.store.size) :
    w''.store.content c = w'.store.content c := by
  have middle := first.acyclic acyclic
  refine Store.content_congr (P := fun b => w.store.size ≤ b.index ∧ b.index < w'.store.size) middle
    (second.acyclic middle) ?_ ?_ ⟨new, inside⟩
  · rintro b d ⟨new, -⟩ edge
    rcases first.newer b d edge with old | ⟨-, fresh, bound⟩
    · exact absurd old.inside (Nat.not_lt.mpr new)
    · exact ⟨fresh, bound⟩
  · rintro b ⟨new, bound⟩
    refine second.frame b bound ?_
    rintro part rfl
    exact absurd (fits.inside part) (Nat.not_lt.mpr new)

theorem Grows.expand_eq (first : Grows scope w w') (second : Grows scope w' w'') (fits : scope.Fits w)
    (acyclic : w.store.Acyclic) {added : List (Segment BufferId)}
    (fresh : ∀ c, .embed c ∈ added → w.store.size ≤ c.index ∧ c.index < w'.store.size) :
    w''.store.expand added = w'.store.expand added := by
  refine Code.expandWith_congr fun c member => ?_
  obtain ⟨new, inside⟩ := fresh c member
  exact first.content_eq second fits acyclic new inside

/-- One emission after the other. -/
theorem Adds.append {before after : Emission} (first : Adds scope w w' before) (second : Adds scope w' w'' after)
    (grows : Grows scope w w') (more : Grows scope w' w'') (fits : scope.Fits w) (acyclic : w.store.Acyclic) :
    Adds scope w w'' { code := fun part => before.code part ++ after.code part, next := after.next } where
  code part := by
    obtain ⟨added, segments, fresh, expands⟩ := first.code part
    obtain ⟨added', segments', fresh', expands'⟩ := second.code part
    refine ⟨added ++ added', ?_, ?_, ?_⟩
    · rw [segments', segments, List.append_assoc]
    · have size := grows.size
      have size' := more.size
      intro c member
      rcases List.mem_append.mp member with earlier | later
      · obtain ⟨new, inside⟩ := fresh c earlier
        exact ⟨new, by omega⟩
      · obtain ⟨new, inside⟩ := fresh' c later
        exact ⟨by omega, inside⟩
    · rw [Store.expand_append, grows.expand_eq more fits acyclic fresh, expands, expands',
        Traced.forgetAll_append]
  next := second.next

end

/-- The code of an element hangs on that of its children only where it does not pass on. -/
theorem Head.code_congr {β : Type} {f g : Section → β} (h : Head) (root : Option String) (next : Nat)
    (same : ∀ part, h.passes part = false → f part = g part) : h.code root next f = h.code root next g := by
  have features : h.allFeatures next f = h.allFeatures next g := by
    rcases found : h.region? with _ | ⟨field, ⟨condition, stopper⟩ | ⟨item, collection, stopper⟩⟩ <;>
      simp only [passes, found] at same <;> simp only [allFeatures, found]
    · rfl
    · simp [Region.feature, same .created rfl, same .mounted rfl, same .unmounted rfl]
    · rw [funext fun part => same part rfl]
  funext part
  rw [code, code, features]

section
variable {scope : Scope} {w w' w'' : Workspace} {head : Head} {inner : Section → BufferId}

/-- The code that an element wrote stands for its code around that of its children, once theirs is
    written too. -/
theorem Enters.expand_own (enters : Enters head scope w w' inner) (fits : scope.Fits w) {emission : Emission}
    (acyclic : w''.store.Acyclic)
    (children : Adds (head.childScope scope (w.peek scope.counter) inner) w' w'' emission)
    (path : List Nat) (part : Section) :
    w''.store.expand (head.code scope.queryRoot (w.peek scope.counter) inner part)
      = Traced.forgetAll (Traced.ofSegments path part 0
          (head.code scope.queryRoot (w.peek scope.counter) emission.code part)) := by
  have caught : ∀ part, head.passes part = false →
      w''.store.content (inner part) = Traced.forgetAll (emission.code part) := by
    intro part pass
    obtain ⟨added, segments, -, expands⟩ := children.code part
    simp only [Head.childScope, pass, Bool.false_eq_true, ↓reduceIte, enters.segments_inner fits pass,
      List.nil_append] at segments
    rw [Store.content_eq_expand acyclic, segments, expands]
  calc w''.store.expand (head.code scope.queryRoot (w.peek scope.counter) inner part)
    _ = Code.expandWith id (head.code scope.queryRoot (w.peek scope.counter)
          (fun part => w''.store.content (inner part)) part) := by
        rw [← Head.code_map w''.store.content, Code.expandWith_map]
        rfl
    _ = Code.expandWith id (head.code scope.queryRoot (w.peek scope.counter)
          (fun part => Traced.forgetAll (emission.code part)) part) := by
        rw [head.code_congr _ _ caught]
    _ = _ := by
        rw [← Head.code_map Traced.forgetAll, Code.expandWith_map, Traced.forgetAll_ofSegments]
        rfl

/-- An element and its children add what the element writes, with the code of the children in its
    place. -/
theorem Enters.adds (enters : Enters head scope w w' inner) (fits : scope.Fits w) {emission : Emission}
    (acyclic : w.store.Acyclic) (grows : Grows (head.childScope scope (w.peek scope.counter) inner) w' w'')
    (children : Adds (head.childScope scope (w.peek scope.counter) inner) w' w'' emission) (path : List Nat) :
    Adds scope w w''
      { code := fun part =>
          Traced.ofSegments path part 0 (head.code scope.queryRoot (w.peek scope.counter) emission.code part)
            ++ if head.passes part then emission.code part else []
        next := emission.next } where
  code part := by
    have size := enters.size
    have size' := grows.size
    have own := enters.expand_own fits ((enters.grows_children fits grows).acyclic acyclic) children path part
    have fresh : ∀ c, .embed c ∈ head.code scope.queryRoot (w.peek scope.counter) inner part →
        w.store.size ≤ c.index ∧ c.index < w''.store.size := by
      intro c member
      obtain ⟨caught, pass, rfl⟩ := Head.mem_code_embed member
      obtain ⟨new, inside⟩ := enters.fresh caught pass
      exact ⟨new, by omega⟩
    cases pass : head.passes part with
    | true =>
      obtain ⟨added, segments, later, expands⟩ := children.code part
      simp only [Head.childScope, pass, ↓reduceIte] at segments
      refine ⟨head.code scope.queryRoot (w.peek scope.counter) inner part ++ added, ?_, ?_, ?_⟩
      · rw [segments, enters.own, List.append_assoc]
      · intro c member
        rcases List.mem_append.mp member with own | inside
        · exact fresh c own
        · obtain ⟨new, bound⟩ := later c inside
          exact ⟨by omega, bound⟩
      · simp only [Store.expand_append, own, expands, pass, ↓reduceIte, Traced.forgetAll_append]
    | false =>
      -- The children have other buffers for this section, so it stays as the element left it.
      have elsewhere : ∀ other, scope.buffers part
          ≠ (head.childScope scope (w.peek scope.counter) inner).buffers other := by
        intro other same
        simp only [Head.childScope] at same
        cases through : head.passes other with
        | true =>
          simp only [through, ↓reduceIte] at same
          rw [fits.distinct same, through] at pass
          cases pass
        | false =>
          simp only [through, Bool.false_eq_true, ↓reduceIte] at same
          exact enters.ne_inner fits through part same.symm
      refine ⟨head.code scope.queryRoot (w.peek scope.counter) inner part, ?_, fresh, ?_⟩
      · rw [grows.frame _ (Nat.lt_of_lt_of_le (fits.inside part) enters.size) elsewhere, enters.own]
      · simp only [own, pass, Bool.false_eq_true, ↓reduceIte, List.append_nil]
  next := children.next

end

mutual
/-- A walk through a node without fault adds the code of the node by value. -/
theorem weave_adds {scope : Scope} {w w' : Workspace} (fits : scope.Fits w) (acyclic : w.store.Acyclic)
    (path : List Nat) (node : Node) (done : node.weave scope w = (w', none)) :
    Adds scope w w' (node.emit path scope.queryRoot (w.peek scope.counter)) := by
  cases node with
  | text value =>
    cases done
    exact ⟨fun part => ⟨[], by simp, by simp, rfl⟩, rfl⟩
  | element head children =>
    rcases weave_element fits head children with ⟨fault, stopped⟩ | ⟨inner, w₁, enters, goes⟩
    · simp [stopped] at done
    · rw [goes] at done
      have child := enters.fits_childScope fits
      have grows := weaveAll_grows child children
      rw [done] at grows
      have inside := weaveAll_adds child ((enters.grows fits).acyclic acyclic) path 0 children done
      rw [show w₁.peek (head.childScope scope (w.peek scope.counter) inner).counter
        = head.innerNext (w.peek scope.counter) from enters.peek] at inside
      exact enters.adds fits acyclic grows inside path
theorem weaveAll_adds {scope : Scope} {w w' : Workspace} (fits : scope.Fits w) (acyclic : w.store.Acyclic)
    (path : List Nat) (place : Nat) (nodes : List Node) (done : weaveAll scope w nodes = (w', none)) :
    Adds scope w w' (emitAll path place scope.queryRoot (w.peek scope.counter) nodes) := by
  cases nodes with
  | nil =>
    cases done
    exact ⟨fun part => ⟨[], by simp, by simp, rfl⟩, rfl⟩
  | cons node rest =>
    rw [weaveAll] at done
    rcases result : node.weave scope w with ⟨w₁, _ | fault⟩
    · simp only [result] at done
      have grows := weave_grows fits node
      rw [result] at grows
      have still := fits.mono grows.size (Nat.le_of_eq grows.counters.symm)
      have more := weaveAll_grows still rest
      rw [done] at more
      have first := weave_adds fits acyclic (path ++ [place]) node result
      have later := weaveAll_adds still (grows.acyclic acyclic) path (place + 1) rest done
      rw [first.next] at later
      exact first.append later grows more fits acyclic
    · simp [result] at done
end

/-- In a new scope the sections hold the code of the by-value recursion and nothing else. -/
theorem content_weave {e : Element} {w w' : Workspace} (acyclic : w.store.Acyclic) {root : Option String}
    (done : e.weave (w.newScope root).1 (w.newScope root).2 = (w', none)) (part : Section) :
    w'.store.content ((w.newScope root).1.buffers part) = Traced.forgetAll ((e.emit root 0).code part) := by
  have fits := w.fits_newScope root
  have start := Workspace.acyclic_newScope acyclic root
  have grows := weave_grows fits e.toNode
  rw [show e.toNode.weave _ _ = (w', none) from done] at grows
  obtain ⟨added, segments, -, expands⟩ := (weave_adds fits start [] e.toNode done).code part
  rw [w.segments_newScope_buffers, List.nil_append] at segments
  rw [Store.content_eq_expand (grows.acyclic start), segments, expands, w.peek_newScope]
  rfl

/-- Weaving refines emission by value. From a workspace without circles of embeddings and a scope with
    four buffers, a walk without fault appends to each section segments that stand for the code of the
    by-value recursion, leaves the counter where that leaves it, changes no other buffer that was there
    and makes no circle. -/
theorem weave_refines_emit (e : Element) {scope : Scope} {w w' : Workspace} (fits : scope.Fits w)
    (acyclic : w.store.Acyclic) (done : e.weave scope w = (w', none)) :
    (∀ part, ∃ added,
      w'.store.segments (scope.buffers part) = w.store.segments (scope.buffers part) ++ added ∧
        w'.store.expand added
          = Traced.forgetAll ((e.emit scope.queryRoot (w.peek scope.counter)).code part)) ∧
      w'.peek scope.counter = (e.emit scope.queryRoot (w.peek scope.counter)).next ∧
      (∀ b, b.index < w.store.size → (∀ part, b ≠ scope.buffers part) →
        w'.store.segments b = w.store.segments b) ∧
      w'.store.Acyclic := by
  have grows := weave_grows fits e.toNode
  rw [show e.toNode.weave scope w = (w', none) from done] at grows
  have adds := weave_adds fits acyclic [] e.toNode done
  refine ⟨fun part => ?_, adds.next, grows.frame, grows.acyclic acyclic⟩
  obtain ⟨added, segments, -, expands⟩ := adds.code part
  exact ⟨added, segments, expands⟩

/-- A button with a listener and a label that is there while a condition holds, for each item of a list. -/
def nestedRegions : Element where
  head := { tag := "ul", info := some { field := some "list", elementId := some "list",
                                        region := some (.repeated "item" "items" "stopList") } }
  children :=
    [.text " ",
     .element { tag := "li", info := some { field := some "box", elementId := some "box",
                                            region := some (.conditional "open" "stopBox") } }
      [.element { tag := "button",
                  info := some { field := some "go", elementId := some "go",
                                 events := .ofList [("click", [{ action := "run()", field := "onGo" }])],
                                 content := some { expression := "label", stopper := "stopLabel" } } }
        []]]

/-- The list writes to all sections. Its box is declared where an item is mounted. -/
theorem weave_refines_emit_nestedRegions :
    let start := ({} : Workspace).newScope none
    let lines (w : Workspace) part := Block.textsAll (w.store.expand (w.store.segments (start.1.buffers part)))
    ∃ w', nestedRegions.weave start.1 start.2 = (w', none) ∧
      (∀ part, ∃ added,
        w'.store.segments (start.1.buffers part) = start.2.store.segments (start.1.buffers part) ++ added ∧
          w'.store.expand added = Traced.forgetAll ((nestedRegions.emit none 0).code part)) ∧
      lines w' .created
        = ["list = _root.query('#list');", "assert(list.elements.length == 1);",
           "list_childTemplate = list.elements[0];", "list.nodes.clear();"] ∧
      (lines w' .mounted).take 9
        = ["stopList = autogenerated.watchAndInvoke(() => items, (e) \x7b",
           "for (var remover in list_removeChild) \x7b", "remover();", "\x7d", "list_removeChild.clear();",
           "if (e.newValue is Iterable) \x7b", "for (var item in e.newValue) \x7b",
           "var __x0 = list_childTemplate.clone(true);", "autogenerated.LIElement box;"] ∧
      lines w' .unmounted
        = ["stopList();", "for (var remover in list_removeChild) \x7b", "remover();", "\x7d",
           "list_removeChild.clear();"] ∧
      w'.peek start.1.counter = 1 := by
  intro start lines
  have done : nestedRegions.weave start.1 start.2 = ((nestedRegions.weave start.1 start.2).1, none) :=
    Prod.ext rfl (by decide +kernel)
  obtain ⟨code, next, -, -⟩ := weave_refines_emit nestedRegions (({} : Workspace).fits_newScope none)
    (Workspace.acyclic_newScope Store.acyclic_empty none) done
  exact ⟨_, done, code, by decide +kernel, by decide +kernel, by decide +kernel, next⟩

end TemplateWeaver
