import TemplateWeaver.Assembly.Page
import TemplateWeaver.Proofs.Code.Termination
import TemplateWeaver.Proofs.Weave.Faults
import TemplateWeaver.Proofs.Weave.Refinement
import TemplateWeaver.Weave.Session

/-!
Embeddings in a session. Whatever is done with scopes short of splicing them by hand, every embedded buffer
is newer than the one that embeds it (`Session.Tidy.run`). So no circle comes about and working out the text
of a section ends, also that of the members or the program around all sections (`run_stays_acyclic`).
-/
namespace TemplateWeaver

open Code (BufferId Segment Store)
open Code.Segment (embedded embedded_append mem_embedded)

/-- Every embedded buffer is there and newer than the one that embeds it. -/
def Code.Store.Ordered (s : Store) : Prop :=
  ∀ b c, s.Embeds b c → b.index < c.index ∧ c.index < s.size

theorem Code.Store.Ordered.acyclic {s : Store} (ordered : s.Ordered) : s.Acyclic := by
  apply Store.acyclic_of_newer Store.acyclic_empty
  intro b c edge
  exact .inr ⟨(ordered b c edge).1, Nat.zero_le _⟩

theorem Code.Store.Ordered.of_segments {s t : Store} (ordered : s.Ordered) (size : s.size ≤ t.size)
    (same : ∀ b, t.segments b = s.segments b) : t.Ordered := by
  intro b c edge
  rw [Store.Embeds, same b] at edge
  obtain ⟨above, inside⟩ := ordered b c edge
  exact ⟨above, by omega⟩

/-! ### Steps of a workspace -/

namespace Workspace

variable {w : Workspace} {scope : Scope}

theorem size_le_viewScope (w : Workspace) (scope : Scope) (shared : List Section) (root : Option String) :
    w.store.size ≤ (w.viewScope scope shared root).2.store.size :=
  w.size_le_newScope root

theorem segments_viewScope (w : Workspace) (scope : Scope) (shared : List Section) (root : Option String) (b : BufferId) :
    (w.viewScope scope shared root).2.store.segments b = w.store.segments b :=
  w.segments_newScope root b

theorem counters_viewScope (w : Workspace) (scope : Scope) (shared : List Section) (root : Option String) :
    (w.viewScope scope shared root).2.counters = w.counters := rfl

/-- A view of a scope has four buffers again: the shared ones stay apart, and the others are new. -/
theorem fits_viewScope (fits : scope.Fits w) (shared : List Section) (root : Option String) :
    (w.viewScope scope shared root).1.Fits (w.viewScope scope shared root).2 := by
  have fresh := w.fits_newScope root
  have new := w.le_newScope_buffers root
  have apart : ∀ p q, scope.buffers p ≠ (w.newScope root).1.buffers q := by
    intro p q same
    have old := fits.inside p
    have later := new q
    rw [same] at old
    omega
  constructor
  · intro p q same
    change (if p ∈ shared then scope.buffers p else (w.newScope root).1.buffers p)
      = (if q ∈ shared then scope.buffers q else (w.newScope root).1.buffers q) at same
    by_cases left : p ∈ shared <;> by_cases right : q ∈ shared
    · rw [if_pos left, if_pos right] at same
      exact fits.distinct same
    · rw [if_pos left, if_neg right] at same
      exact absurd same (apart p q)
    · rw [if_neg left, if_pos right] at same
      exact absurd same.symm (apart q p)
    · rw [if_neg left, if_neg right] at same
      exact fresh.distinct same
  · intro part
    change (if part ∈ shared then scope.buffers part else (w.newScope root).1.buffers part).index
      < (w.newScope root).2.store.size
    by_cases old : part ∈ shared
    · rw [if_pos old]
      exact Nat.lt_of_lt_of_le (fits.inside part) (w.size_le_newScope root)
    · rw [if_neg old]
      exact fresh.inside part
  · exact fits.counted

/-- Text embeds nothing. -/
theorem ordered_extend_lines (ordered : w.store.Ordered) {b : BufferId} (inside : b.index < w.store.size)
    (text : String) : (w.extend b (Code.lines text)).store.Ordered := by
  intro c d edge
  rw [size_extend]
  by_cases here : b = c
  · subst here
    rw [Store.Embeds, extend, Store.segments_extend_self _ _ _ inside, List.mem_append] at edge
    rcases edge with old | added
    · exact ordered b d old
    · rw [← mem_embedded, embedded_lines] at added
      cases added
  · rw [Store.Embeds, extend, Store.segments_extend_of_ne _ _ here] at edge
    exact ordered c d edge

/-- A new buffer around buffers that are there makes no circle. -/
theorem acyclic_around (ordered : w.store.Ordered) {code : List (Segment BufferId)}
    (known : ∀ c ∈ embedded code, c.index < w.store.size) : (w.allocate.2.extend w.allocate.1 code).store.Acyclic := by
  have other : ∀ b, b ≠ w.allocate.1 →
      (w.allocate.2.extend w.allocate.1 code).store.segments b = w.store.segments b := by
    intro b apart
    exact (Store.segments_extend_of_ne _ _ apart.symm).trans (Head.segments_allocate w b)
  refine Store.acyclic_of_unembedded ordered.acyclic other ?_
  intro b edge
  have below : w.allocate.1.index < w.store.size := by
    by_cases root : b = w.allocate.1
    · have own : (w.allocate.2.extend w.allocate.1 code).store.segments w.allocate.1 = code := by
        have empty : w.store.segments w.allocate.1 = [] := Store.segments_eq_nil (Nat.le_refl _)
        have size : w.allocate.1.index < w.allocate.2.store.size := by
          rw [Head.size_allocate]
          exact Nat.lt_succ_self _
        rw [extend, Store.segments_extend_self _ _ _ size, Head.segments_allocate, empty, List.nil_append]
      rw [Store.Embeds, root, own] at edge
      exact known _ (mem_embedded.mpr edge)
    · rw [Store.Embeds, other b root] at edge
      exact (ordered b _ edge).2
  exact Nat.lt_irrefl _ below

end Workspace

/-! ### Steps of a session -/

namespace Weave

/-- Embedding a section of a scope in another one by hand. -/
def Operation.isSplice : Operation → Bool
  | .splice .. => true
  | _ => false

namespace Session

variable {s s' : Session} {operation : Operation}

/-- What an operation can do, short of a splice. -/
inductive Follows (s : Session) : Session → Prop where
  | refused : Follows s s
  | create : Follows s (s.withScope (s.workspace.newScope none))
  | share {scope : Scope} (known : scope ∈ s.scopes) : Follows s (s.withScope (scope, s.workspace))
  | view {scope : Scope} (known : scope ∈ s.scopes) (shared : List Section) (root : Option String) :
      Follows s (s.withScope (s.workspace.viewScope scope shared root))
  | count {scope : Scope} (known : scope ∈ s.scopes) :
      Follows s { s with workspace := (s.workspace.nextId scope.counter).2 }
  | append {scope : Scope} (known : scope ∈ s.scopes) (part : Section) (text : String) :
      Follows s { s with workspace := s.workspace.extend (scope.buffers part) (Code.lines text) }
  | weave {scope : Scope} (known : scope ∈ s.scopes) (element : Element) :
      Follows s { s with workspace := (element.weave scope s.workspace).1 }

/-- An operation on a scope changes nothing if the scope is unknown. -/
theorem step_of_scope {number : Nat} {after : Scope → Answer × Session}
    (reads : s.apply operation = s.scope number >>= fun scope => pure (after scope)) :
    s.step operation = (s.scopes[number]?).elim s fun scope => (after scope).2 := by
  unfold step
  rw [reads, Session.scope]
  cases s.scopes[number]? <;> rfl

theorem follows_of_scope (number : Nat) (after : Scope → Answer × Session)
    (reads : s.apply operation = s.scope number >>= fun scope => pure (after scope))
    (each : ∀ scope ∈ s.scopes, s.Follows (after scope).2) : s.Follows (s.step operation) := by
  rw [step_of_scope reads]
  cases found : s.scopes[number]? with
  | none => exact .refused
  | some scope => exact each scope (List.mem_of_getElem? found)

theorem follows_step (plain : operation.isSplice = false) : s.Follows (s.step operation) := by
  cases operation with
  | create => exact .create
  | share number => exact follows_of_scope number _ rfl fun scope known => .share known
  | view number shared root => exact follows_of_scope number _ rfl fun scope known => .view known shared root
  | nextId number => exact follows_of_scope number _ rfl fun scope known => .count known
  | newName number stem => exact follows_of_scope number _ rfl fun scope known => .count known
  | append number part text => exact follows_of_scope number _ rfl fun scope known => .append known part text
  | splice number part source sourcePart => cases plain
  | weave number element => exact follows_of_scope number _ rfl fun scope known => .weave known element

/-- Every embedded buffer is newer than the one that embeds it, and every scope has four buffers. -/
structure Tidy (s : Session) : Prop where
  ordered : s.workspace.store.Ordered
  fits : ∀ scope ∈ s.scopes, scope.Fits s.workspace

theorem tidy_empty : ({} : Session).Tidy where
  ordered b c edge := absurd edge.inside (Nat.not_lt_zero _)
  fits scope member := by cases member

/-- A workspace with as many buffers and counters at least still fits all scopes. -/
theorem Tidy.keep (tidy : s.Tidy) {w : Workspace} (ordered : w.store.Ordered)
    (size : s.workspace.store.size ≤ w.store.size) (counters : s.workspace.counters.length ≤ w.counters.length) :
    Tidy { s with workspace := w } where
  ordered := ordered
  fits scope member := (tidy.fits scope member).mono size counters

theorem Tidy.withScope {w : Workspace} (tidy : Tidy { s with workspace := w }) {scope : Scope} (fits : scope.Fits w) :
    Tidy (s.withScope (scope, w)) where
  ordered := tidy.ordered
  fits other member := by
    rcases List.mem_append.mp member with old | new
    · exact tidy.fits other old
    · obtain rfl := List.mem_singleton.mp new
      exact fits

theorem Tidy.follows (tidy : s.Tidy) (follows : s.Follows s') : s'.Tidy := by
  cases follows with
  | refused => exact tidy
  | create =>
    have size := s.workspace.size_le_newScope none
    have ordered := tidy.ordered.of_segments size (s.workspace.segments_newScope none)
    exact (tidy.keep ordered size (by simp [Workspace.newScope, Workspace.allocateSections, Workspace.allocate])).withScope
      (s.workspace.fits_newScope none)
  | share known => exact tidy.withScope (tidy.fits _ known)
  | @view scope known shared root =>
    have size := s.workspace.size_le_viewScope scope shared root
    have ordered := tidy.ordered.of_segments size (s.workspace.segments_viewScope scope shared root)
    exact (tidy.keep ordered size (Nat.le_refl _)).withScope (Workspace.fits_viewScope (tidy.fits scope known) shared root)
  | count known => exact tidy.keep tidy.ordered (Nat.le_refl _) (by simp [Workspace.nextId])
  | @append scope known part text =>
    have ordered := Workspace.ordered_extend_lines tidy.ordered ((tidy.fits scope known).inside part) text
    exact tidy.keep ordered (by simp) (Nat.le_refl _)
  | @weave scope known element =>
    have grows : Grows scope s.workspace (element.weave scope s.workspace).1 :=
      weave_grows (tidy.fits scope known) element.toNode
    have ordered : (element.weave scope s.workspace).1.store.Ordered := by
      intro b c edge
      rcases grows.newer b c edge with old | ⟨above, -, inside⟩
      · obtain ⟨above, inside⟩ := tidy.ordered b c old
        exact ⟨above, Nat.lt_of_lt_of_le inside grows.size⟩
      · exact ⟨above, inside⟩
    exact tidy.keep ordered grows.size (Nat.le_of_eq grows.counters.symm)

theorem Tidy.run (tidy : s.Tidy) {operations : List Operation}
    (plain : ∀ operation ∈ operations, operation.isSplice = false) : (s.run operations).Tidy := by
  induction operations generalizing s with
  | nil => exact tidy
  | cons operation rest ih =>
    have first := tidy.follows (follows_step (plain operation List.mem_cons_self))
    exact ih first fun later member => plain later (List.mem_cons_of_mem _ member)

end Session

open Session (Tidy tidy_empty)

theorem embedded_memberCode (scope : Scope) :
    embedded (Component.memberCode scope) = Section.all.map scope.buffers := by
  unfold Component.memberCode
  simp only [embedded_append, embedded_lines, List.nil_append, List.append_nil]
  rfl

theorem embedded_programCode (scope : Scope) :
    embedded (Page.programCode scope) = Section.all.map scope.buffers := by
  unfold Page.programCode
  simp only [embedded_append, embedded_lines, List.nil_append, List.append_nil]
  rfl

/-- However scopes are made, viewed, added to and woven into, with or without faults, no circle of embeddings
    comes about: every embedded buffer was made after the one that embeds it, and so none embeds itself. Rendering,
    counting lines and looking for lines end in every section of every scope. The members of a class or the program of
    a page around the sections of a scope make no circle either, and their text can be worked out. -/
theorem run_stays_acyclic (operations : List Operation)
    (plain : ∀ operation ∈ operations, operation.isSplice = false) :
    let s := ({} : Session).run operations
    (∀ b c, s.workspace.store.Embeds b c → b.index < c.index ∧ c.index < s.workspace.store.size) ∧
      s.workspace.store.Acyclic ∧ (∀ b, ¬ s.workspace.store.Embeds b b) ∧
      ∀ scope ∈ s.scopes,
        (∀ part, s.workspace.store.Settles (scope.buffers part)) ∧
          ∀ code ∈ [Component.memberCode scope, Page.programCode scope],
            (s.workspace.allocate.2.extend s.workspace.allocate.1 code).store.Acyclic ∧
              (s.workspace.allocate.2.extend s.workspace.allocate.1 code).store.Settles s.workspace.allocate.1 := by
  intro s
  have tidy : s.Tidy := tidy_empty.run plain
  have acyclic := tidy.ordered.acyclic
  refine ⟨tidy.ordered, acyclic, fun b edge => acyclic b (.single edge), ?_⟩
  intro scope member
  have fits := tidy.fits scope member
  refine ⟨fun part => acyclic.settles _, ?_⟩
  intro code wraps
  have sections : embedded code = Section.all.map scope.buffers := by
    simp only [List.mem_cons, List.not_mem_nil, or_false] at wraps
    rcases wraps with same | same
    · rw [same, embedded_memberCode]
    · rw [same, embedded_programCode]
  have around : (s.workspace.allocate.2.extend s.workspace.allocate.1 code).store.Acyclic := by
    apply Workspace.acyclic_around tidy.ordered
    intro c inside
    rw [sections] at inside
    obtain ⟨part, -, rfl⟩ := List.mem_map.mp inside
    exact fits.inside part
  exact ⟨around, around.settles _⟩

/-- A scope and a view of it that shares two sections, both woven into, one with a fault. -/
def sharedSections : List Operation :=
  [.create, .view 0 [.declarations, .mounted] (some "_box"), .append 1 .created "start();", .weave 1 nestedRegions,
   .weave 0 faultyItems]

theorem run_stays_acyclic_sharedSections :
    let s := ({} : Session).run sharedSections
    s.workspace.store.Embeds ⟨2⟩ ⟨8⟩ ∧ s.workspace.store.Acyclic ∧
      ∀ scope ∈ s.scopes, ∀ part, s.workspace.store.Settles (scope.buffers part) := by
  intro s
  obtain ⟨-, acyclic, -, each⟩ := run_stays_acyclic sharedSections (by decide)
  have edge : .embed ⟨8⟩ ∈ s.workspace.store.segments ⟨2⟩ := by decide +kernel
  exact ⟨edge, acyclic, fun scope member => (each scope member).1⟩

end Weave

end TemplateWeaver
