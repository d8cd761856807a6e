import Mathlib.Logic.Equiv.Basic
import TemplateWeaver.Code.Session
import TemplateWeaver.Proofs.Code.Embedding

/-!
Histories of buffers. The handles alone say what an operation adds, and to which buffer
(`Session.addition?`). At the end of a run a buffer holds what was added to it, in order
(`segments_run`), so it does not matter how what was done to different buffers is interleaved
(`render_of_same_histories`). What is added later might as well have been added before all that was done
to other buffers in between (`run_add_early`).
-/
namespace TemplateWeaver.Code

open Relation (TransGen)

/-! ### Stores up to the numbers of their buffers -/

namespace Store

variable {s t : Store} {σ : Equiv.Perm BufferId}

/-- A store is another one with its buffers numbered anew. -/
def Renumbers (σ : Equiv.Perm BufferId) (s t : Store) : Prop :=
  ∀ b, t.segments (σ b) = (s.segments b).map (Segment.map σ)

theorem Renumbers.embeds (renumbers : Renumbers σ s t) {b c : BufferId} (edge : t.Embeds b c) :
    s.Embeds (σ.symm b) (σ.symm c) := by
  have placed := renumbers (σ.symm b)
  rw [σ.apply_symm_apply] at placed
  rw [Embeds, placed] at edge
  obtain ⟨segment, member, same⟩ := List.mem_map.mp edge
  cases segment with
  | line text => cases same
  | embed d =>
    obtain rfl : σ d = c := by simpa [Segment.map] using same
    rwa [σ.symm_apply_apply]

theorem Renumbers.acyclic (renumbers : Renumbers σ s t) (acyclic : s.Acyclic) : t.Acyclic := by
  intro b cycle
  apply acyclic (σ.symm b)
  exact TransGen.lift σ.symm (fun _ _ edge => renumbers.embeds edge) _ _ cycle

theorem Renumbers.unroll (renumbers : Renumbers σ s t) (fuel : Nat) (b : BufferId) :
    t.unroll fuel (σ b) = s.unroll fuel b := by
  induction fuel generalizing b with
  | zero => rfl
  | succ fuel ih =>
    rw [Store.unroll, Store.unroll, renumbers b, expandWith_map]
    exact expandWith_congr fun c _ => ih c

/-- New numbers do not change what a buffer holds. -/
theorem Renumbers.content (renumbers : Renumbers σ s t) (acyclic : s.Acyclic) (b : BufferId) :
    t.content (σ b) = s.content b := by
  rw [← unroll_eq_content acyclic (Nat.le_max_left s.size t.size) b,
    ← unroll_eq_content (renumbers.acyclic acyclic) (Nat.le_max_right s.size t.size) (σ b)]
  exact renumbers.unroll _ b

theorem extend_comm (s : Store) {b c : BufferId} (other : b ≠ c) (added more : List (Segment BufferId)) :
    (s.extend b added).extend c more = (s.extend c more).extend b added := by
  have apart : b.index ≠ c.index := fun same => other (by cases b; cases c; simp_all)
  simp only [extend, List.modify_modify_ne _ _ _ apart]

theorem allocate_extend {c : BufferId} (inside : c.index < s.size) (added : List (Segment BufferId)) :
    (s.extend c added).allocate = (s.allocate.1, s.allocate.2.extend c added) := by
  have longer : (s.buffers ++ [[]]).modify c.index (· ++ added) = s.buffers.modify c.index (· ++ added) ++ [[]] := by
    apply List.ext_getElem?
    intro i
    simp only [size] at inside
    rw [List.getElem?_modify]
    by_cases old : i < s.buffers.length
    · rw [List.getElem?_append_left old, List.getElem?_append_left (by simpa using old), List.getElem?_modify]
    · have apart : c.index ≠ i := by omega
      rw [List.getElem?_append_right (by omega), List.getElem?_append_right (by simpa using old), List.length_modify]
      simp [apart]
  simp only [allocate, extend, size, longer, List.length_modify]

end Store

/-! ### What operations add -/

/-- Something that is added to a buffer. -/
inductive Addition where
  | lines (text : String)
  | verbatim (text : String)
  | embedding (other : BufferId)
  deriving DecidableEq

namespace Addition

def segments : Addition → List (Segment BufferId)
  | .lines text => Code.lines text
  | .verbatim text => Code.verbatim text
  | .embedding other => [.embed other]

/-- The same with buffers under other numbers. -/
def rename (σ : BufferId → BufferId) : Addition → Addition
  | .embedding other => .embedding (σ other)
  | addition => addition

theorem segments_rename (σ : BufferId → BufferId) (addition : Addition) :
    (addition.rename σ).segments = addition.segments.map (Segment.map σ) := by
  cases addition with
  | lines text => exact (map_lines σ text).symm
  | verbatim text => exact (map_verbatim σ text).symm
  | embedding other => rfl

end Addition

namespace Session

variable {s : Session} {operation : Operation} {b c : BufferId}

/-- The buffer that an operation adds to, and what it adds. A refused operation adds nothing, and neither does
    one that makes a handle. -/
def addition? (s : Session) : Operation → Option (BufferId × Addition)
  | .create => none
  | .share _ => none
  | .append handle text => s.handles[handle]?.map fun b => (b, .lines text)
  | .appendVerbatim handle text => s.handles[handle]?.map fun b => (b, .verbatim text)
  | .embed handle other =>
    s.handles[handle]?.bind fun b =>
      s.handles[other]?.bind fun c => if b = c then none else some (b, .embedding c)

/-- A session after one operation; a refused one changes nothing. -/
def step (s : Session) (operation : Operation) : Session :=
  (s.apply operation).toOption.getD s

theorem run_cons (s : Session) (operation : Operation) (rest : List Operation) :
    s.run (operation :: rest) = (s.step operation).run rest := rfl

theorem run_append (s : Session) (front back : List Operation) : s.run (front ++ back) = (s.run front).run back :=
  List.foldl_append

/-- What an operation adds to a buffer. -/
def addedTo (s : Session) (b : BufferId) (operation : Operation) : List Addition :=
  (s.addition? operation).toList.filterMap fun (c, addition) => if c = b then some addition else none

/-- All that operations add to a buffer, in their order. -/
def history (s : Session) (b : BufferId) : List Operation → List Addition
  | [] => []
  | operation :: rest => s.addedTo b operation ++ (s.step operation).history b rest

/-- Every handle stands for a buffer that is there. -/
def Sound (s : Session) : Prop :=
  ∀ b ∈ s.handles, b.index < s.store.size

theorem sound_empty : ({} : Session).Sound := fun _ member => by cases member

theorem apply_embed_self {handle other : Nat} (one : s.buffer handle = .ok b) (same : s.buffer other = .ok b) :
    s.apply (.embed handle other) = .error .selfEmbedding := by
  simp [apply, one, same, bind, Except.bind, Store.embed?]

/-- An operation makes a handle, or adds what it says to a buffer, or is refused. -/
theorem step_eq (s : Session) (operation : Operation) :
    s.step operation = match operation with
      | .create => { store := s.store.allocate.2, handles := s.handles ++ [s.store.allocate.1] }
      | .share handle => (s.handles[handle]?).elim s s.withHandle
      | adding => (s.addition? adding).elim s fun (b, addition) => s.extend b addition.segments := by
  cases operation with
  | create => rfl
  | share handle =>
    simp only [step, apply, buffer]
    cases s.handles[handle]? <;> rfl
  | append handle text =>
    simp only [step, apply, buffer, addition?]
    cases s.handles[handle]? <;> rfl
  | appendVerbatim handle text =>
    simp only [step, apply, buffer, addition?]
    cases s.handles[handle]? <;> rfl
  | embed handle other =>
    simp only [step, apply, buffer, addition?]
    cases s.handles[handle]? with
    | none => rfl
    | some b =>
      cases s.handles[other]? with
      | none => rfl
      | some c =>
        by_cases same : b = c
        · simp [same, bind, Except.bind, Store.embed?, Except.toOption]
        · simp [same, bind, Except.bind, Store.embed?, Except.toOption, extend, Addition.segments]

/-- An operation that adds something does nothing else. -/
theorem step_of_addition {addition : Addition} (adds : s.addition? operation = some (b, addition)) :
    b ∈ s.handles ∧ s.step operation = s.extend b addition.segments := by
  cases operation with
  | create => cases adds
  | share handle => cases adds
  | append handle text =>
    obtain ⟨c, found, same⟩ := Option.map_eq_some_iff.mp adds
    cases same
    exact ⟨List.mem_of_getElem? found, by simp only [step_eq, adds, Option.elim_some]⟩
  | appendVerbatim handle text =>
    obtain ⟨c, found, same⟩ := Option.map_eq_some_iff.mp adds
    cases same
    exact ⟨List.mem_of_getElem? found, by simp only [step_eq, adds, Option.elim_some]⟩
  | embed handle other =>
    obtain ⟨c, found, rest⟩ := Option.bind_eq_some_iff.mp adds
    obtain ⟨d, -, last⟩ := Option.bind_eq_some_iff.mp rest
    split at last
    · cases last
    · cases last
      exact ⟨List.mem_of_getElem? found, by simp only [step_eq, adds, Option.elim_some]⟩

/-- An operation that adds nothing makes a handle at most. -/
theorem step_of_none (none : s.addition? operation = none) :
    s.step operation = s ∨
      s.step operation = { store := s.store.allocate.2, handles := s.handles ++ [s.store.allocate.1] } ∨
      ∃ b ∈ s.handles, s.step operation = s.withHandle b := by
  cases operation with
  | create => exact .inr (.inl rfl)
  | share handle =>
    rw [step_eq]
    cases found : s.handles[handle]? with
    | none => exact .inl (by simp only [found, Option.elim_none])
    | some b => exact .inr (.inr ⟨b, List.mem_of_getElem? found, by simp only [found, Option.elim_some]⟩)
  | append | appendVerbatim | embed => exact .inl (by simp only [step_eq, none, Option.elim_none])

theorem Sound.step (sound : s.Sound) (operation : Operation) : (s.step operation).Sound := by
  cases adds : s.addition? operation with
  | some added =>
    obtain ⟨b, addition⟩ := added
    rw [(step_of_addition adds).2]
    intro c member
    simpa [extend] using sound c member
  | none =>
    rcases step_of_none adds with same | new | ⟨b, known, more⟩
    · rwa [same]
    · rw [new]
      intro c member
      simp only [Store.allocate, Store.size, List.length_append, List.length_singleton]
      rcases List.mem_append.mp member with old | last
      · have inside := sound c old
        simp only [Store.size] at inside
        omega
      · obtain rfl := List.mem_singleton.mp last
        simp [Store.allocate, Store.size]
    · rw [more]
      intro c member
      rcases List.mem_append.mp member with old | last
      · exact sound c old
      · obtain rfl := List.mem_singleton.mp last
        exact sound c known

theorem Sound.run (sound : s.Sound) (operations : List Operation) : (s.run operations).Sound := by
  induction operations generalizing s with
  | nil => exact sound
  | cons operation rest ih => exact ih (sound.step operation)

/-- One operation adds to each buffer what it says. -/
theorem segments_step (sound : s.Sound) (operation : Operation) (b : BufferId) :
    (s.step operation).store.segments b
      = s.store.segments b ++ (s.addedTo b operation).flatMap Addition.segments := by
  unfold addedTo
  cases adds : s.addition? operation with
  | some added =>
    obtain ⟨c, addition⟩ := added
    obtain ⟨known, after⟩ := step_of_addition adds
    rw [after]
    by_cases here : c = b
    · subst here
      simpa [extend] using Store.segments_extend_self s.store c addition.segments (sound c known)
    · simpa [extend, here] using Store.segments_extend_of_ne s.store addition.segments here
  | none =>
    rcases step_of_none adds with same | new | ⟨c, -, more⟩
    · simp [same]
    · simp [new]
    · simp [more, withHandle]

/-- A run adds to each buffer its history. -/
theorem segments_run (sound : s.Sound) (operations : List Operation) (b : BufferId) :
    (s.run operations).store.segments b
      = s.store.segments b ++ (s.history b operations).flatMap Addition.segments := by
  induction operations generalizing s with
  | nil => simp [run, history]
  | cons operation rest ih =>
    rw [run_cons, ih (sound.step operation), segments_step sound, history, List.flatMap_append, List.append_assoc]

/-- From the beginning, a buffer has its history and nothing else. -/
theorem segments_run_empty (operations : List Operation) (b : BufferId) :
    (run {} operations).store.segments b = (history {} b operations).flatMap Addition.segments := by
  rw [segments_run sound_empty, Store.segments_eq_nil (Nat.zero_le _), List.nil_append]

/-! ### Adding early or late -/

theorem addition?_extend (s : Session) (c : BufferId) (added : List (Segment BufferId)) (operation : Operation) :
    (s.extend c added).addition? operation = s.addition? operation := by
  cases operation <;> rfl

/-- What is added to a buffer might as well have been added before an operation that adds nothing to it. -/
theorem step_extend (inside : c.index < s.store.size) (elsewhere : s.addedTo c operation = [])
    (added : List (Segment BufferId)) :
    (s.extend c added).step operation = (s.step operation).extend c added := by
  cases adds : s.addition? operation with
  | some more =>
    obtain ⟨b, addition⟩ := more
    have apart : c ≠ b := by
      rintro rfl
      simp [addedTo, adds] at elsewhere
    rw [(step_of_addition adds).2, (step_of_addition ((addition?_extend s c added operation).trans adds)).2]
    simp only [extend, Store.extend_comm s.store apart]
  | none =>
    have still := (addition?_extend s c added operation).trans adds
    cases operation with
    | create => simp only [step_eq, extend, Store.allocate_extend inside]
    | share handle =>
      simp only [step_eq, extend]
      cases s.handles[handle]? <;> rfl
    | append | appendVerbatim | embed => simp only [step_eq, adds, still, Option.elim_none]

theorem handles_step (s : Session) (operation : Operation) :
    ∃ more, (s.step operation).handles = s.handles ++ more := by
  cases adds : s.addition? operation with
  | some added =>
    rw [(step_of_addition adds).2]
    exact ⟨[], by simp [extend]⟩
  | none =>
    rcases step_of_none adds with same | new | ⟨b, -, more⟩
    · exact ⟨[], by simp [same]⟩
    · exact ⟨[s.store.allocate.1], by rw [new]⟩
    · exact ⟨[b], by rw [more]; rfl⟩

/-- More handles do not change what an operation adds. -/
theorem addition?_of_handles {t : Session} {more : List BufferId} (longer : t.handles = s.handles ++ more)
    {added : BufferId × Addition} (adds : s.addition? operation = some added) : t.addition? operation = some added := by
  have kept : ∀ {handle : Nat} {b}, s.handles[handle]? = some b → t.handles[handle]? = some b := by
    intro handle b found
    rw [longer, List.getElem?_append_left (List.getElem?_eq_some_iff.mp found).1, found]
  cases operation with
  | create => cases adds
  | share handle => cases adds
  | append handle text =>
    obtain ⟨b, found, same⟩ := Option.map_eq_some_iff.mp adds
    exact Option.map_eq_some_iff.mpr ⟨b, kept found, same⟩
  | appendVerbatim handle text =>
    obtain ⟨b, found, same⟩ := Option.map_eq_some_iff.mp adds
    exact Option.map_eq_some_iff.mpr ⟨b, kept found, same⟩
  | embed handle other =>
    obtain ⟨b, found, rest⟩ := Option.bind_eq_some_iff.mp adds
    obtain ⟨c, known, last⟩ := Option.bind_eq_some_iff.mp rest
    exact Option.bind_eq_some_iff.mpr ⟨b, kept found, Option.bind_eq_some_iff.mpr ⟨c, kept known, last⟩⟩

/-- What is added to a buffer later, after operations that add nothing to that buffer but may embed it, might as
    well have been added before them. -/
theorem run_add_early (sound : s.Sound) {adding : Operation} {addition : Addition}
    (adds : s.addition? adding = some (c, addition)) {between : List Operation}
    (elsewhere : s.history c between = []) (after : List Operation) :
    s.run (between ++ adding :: after) = s.run (adding :: between ++ after) := by
  induction between generalizing s with
  | nil => rfl
  | cons operation rest ih =>
    obtain ⟨here, later⟩ := List.append_eq_nil_iff.mp elsewhere
    obtain ⟨more, longer⟩ := handles_step s operation
    have still := addition?_of_handles longer adds
    obtain ⟨known, first⟩ := step_of_addition adds
    have swap : (s.step adding).step operation = (s.step operation).step adding := by
      rw [first, (step_of_addition still).2]
      exact step_extend (sound c known) here addition.segments
    have tail := ih (sound.step operation) still later
    simp only [List.cons_append, run_cons] at tail ⊢
    rw [tail, swap]

/-! ### Runs that do the same to each buffer -/

/-- Two runs that do the same to each buffer leave the same text in it, however they interleave what is done to
    different buffers, if no chain of embeddings comes back to its beginning. The runs may number the buffers
    differently. Embedded buffers are live: a buffer holds what was added to it with the embedded buffers as they are
    in the end, and what is added to a buffer after it was embedded comes to the same as if it had been added before.
    A buffer does not embed itself, and trying that changes nothing. -/
theorem render_of_same_histories (first second : List Operation) (σ : Equiv.Perm BufferId)
    (same : ∀ b, history {} (σ b) second = (history {} b first).map (Addition.rename σ))
    (acyclic : (run {} first).store.Acyclic) :
    (∀ b, (∀ level, (run {} second).store.render level (σ b) = (run {} first).store.render level b) ∧
        (run {} second).store.lineCount (σ b) = (run {} first).store.lineCount b ∧
        (run {} second).store.isEmpty (σ b) = (run {} first).store.isEmpty b) ∧
      (∀ b, (run {} first).store.content b
        = (run {} first).store.expand ((history {} b first).flatMap Addition.segments)) ∧
      (∀ before between after adding c addition, (run {} before).addition? adding = some (c, addition) →
        (run {} before).history c between = [] →
          run {} (before ++ (between ++ adding :: after)) = run {} (before ++ (adding :: between ++ after))) ∧
      ∀ s b handle other, buffer s handle = .ok b → buffer s other = .ok b →
        apply s (.embed handle other) = .error .selfEmbedding ∧ run s [.embed handle other] = s := by
  have renumbers : Store.Renumbers σ (run {} first).store (run {} second).store := by
    intro b
    rw [segments_run_empty, segments_run_empty, same b, List.flatMap_map, List.map_flatMap]
    simp only [Addition.segments_rename]
  have content := renumbers.content acyclic
  refine ⟨fun b => ⟨fun level => ?_, ?_, ?_⟩, fun b => ?_, ?_, ?_⟩
  · rw [Store.render, Store.render, content b]
  · rw [Store.lineCount, Store.lineCount, content b]
  · rw [Store.isEmpty, Store.isEmpty, content b]
  · rw [Store.content_eq_expand acyclic, segments_run_empty]
  · intro before between after adding c addition adds elsewhere
    rw [run_append {} before, run_append {} before]
    exact run_add_early (sound_empty.run before) adds elsewhere after
  · intro s b handle other one another
    have refused := apply_embed_self one another
    refine ⟨refused, ?_⟩
    show s.step (.embed handle other) = s
    rw [step, refused]
    rfl

/-- A block that embeds its body, which is written afterwards. -/
def outerFirst : List Operation :=
  [.create, .create, .append 0 "if (on) \x7b", .embed 0 1, .append 1 "go();", .append 0 "\x7d"]

/-- The body first, then the block, through two handles and with an embedding that is refused. -/
def innerFirst : List Operation :=
  [.create, .append 0 "go();", .create, .share 1, .append 2 "if (on) \x7b", .embed 2 1, .embed 1 0, .append 2 "\x7d"]

theorem render_of_same_histories_block :
    (run {} innerFirst).store.render 1 ⟨1⟩ = (run {} outerFirst).store.render 1 ⟨0⟩ ∧
      (run {} innerFirst).store.render 1 ⟨1⟩ = "  if (on) \x7b\n    go();\n  \x7d\n" := by
  have swapped : Equiv.swap (⟨0⟩ : BufferId) ⟨1⟩ ⟨0⟩ = ⟨1⟩ := Equiv.swap_apply_left _ _
  have same : ∀ b, history {} (Equiv.swap ⟨0⟩ ⟨1⟩ b) innerFirst
      = (history {} b outerFirst).map (Addition.rename (Equiv.swap ⟨0⟩ ⟨1⟩)) := by
    rintro ⟨_ | _ | n⟩
    · rw [swapped]
      decide +kernel
    · rw [Equiv.swap_apply_right]
      decide +kernel
    · rw [Equiv.swap_apply_of_ne_of_ne (by simp) (by simp)]
      rfl
  have acyclic : (run {} outerFirst).store.Acyclic := by
    have store : (run {} outerFirst).store
        = { buffers := [[.line "if (on) \x7b", .embed ⟨1⟩, .line "\x7d"], [.line "go();"]] } := by decide +kernel
    rw [store]
    apply Store.acyclic_of_newer Store.acyclic_empty
    rintro ⟨_ | _ | n⟩ c edge
    · obtain rfl : c = ⟨1⟩ := by simpa [Store.Embeds, Store.segments] using edge
      exact .inr ⟨by decide, Nat.zero_le _⟩
    · simp [Store.Embeds, Store.segments] at edge
    · simp [Store.Embeds, Store.segments] at edge
  have texts := (render_of_same_histories outerFirst innerFirst (Equiv.swap ⟨0⟩ ⟨1⟩) same acyclic).1 ⟨0⟩
  rw [swapped] at texts
  exact ⟨texts.1 1, by decide +kernel⟩

end Session

end TemplateWeaver.Code
