import TemplateWeaver.Proofs.Code.Balance
import TemplateWeaver.Proofs.Source.Lead
import TemplateWeaver.Proofs.Weave.Growth

/-!
Generated code is neat: each of its lines leaves the reader outside literals and block comments, and
what a feature writes to a section closes the braces that it opens, and no others on the way. Names have
to be legal and the user's texts closed for that; element ids, events and attributes may be named as they
like.
-/
namespace TemplateWeaver

open Code (Segment)
open Source (Closed Comment Draft Lead Line Plain State Word isMemberName)

variable {β : Type}

/-! ### Neat code -/

/-- Every line leaves the reader at rest, the lines open `net` more braces than they close, and they may
    stand wherever `need` braces are open. -/
structure Neat (segments : List (Segment β)) (need net : Int) : Prop where
  rests : ∀ text, Segment.line text ∈ segments → (State.code.after text.toList).atRest = true
  balance : (segments.map Segment.braces).sum = net
  steady : Steady need segments

namespace Neat

variable {xs ys : List (Segment β)} {n m d e : Int} {text : String} {texts : List String}

theorem fit (neat : Neat xs n d) (enough : n ≤ m) (same : d = e) : Neat xs m e :=
  ⟨neat.rests, same ▸ neat.balance, neat.steady.mono enough⟩

theorem nil : Neat ([] : List (Segment β)) 0 0 :=
  ⟨by simp, rfl, Int.le_refl 0⟩

theorem append (front : Neat xs n d) (back : Neat ys m e) : Neat (xs ++ ys) (max n (m - d)) (d + e) where
  rests text member := by
    rcases List.mem_append.mp member with left | right
    · exact front.rests text left
    · exact back.rests text right
  balance := by simp [front.balance, back.balance]
  steady := by
    refine (front.steady.mono (by omega)).append (back.steady.mono ?_)
    rw [front.balance]
    omega

theorem embed {content : β} (rest : Neat xs n d) (enough : 0 ≤ n) : Neat (.embed content :: xs) n d where
  rests text member := rest.rests text (by simpa using member)
  balance := by simpa [Segment.braces] using rest.balance
  steady := by
    refine ⟨enough, fun closes => closes.elim, ?_⟩
    simpa [Segment.braces] using rest.steady

theorem line (line : Line text d) (enough : 0 ≤ n ∧ 0 ≤ n + d)
    (closing : text.toList.head? = some '}' → 1 ≤ n) : Neat [(.line text : Segment β)] n d where
  rests other member := by
    obtain rfl : other = text := by simpa using member
    exact line.rests
  balance := by simpa [Segment.braces] using line.balance
  steady := by
    refine ⟨enough.1, closing, ?_⟩
    rw [Segment.braces, line.balance]
    exact enough.2

theorem verbatim (line : Line text d) (enough : 0 ≤ n ∧ 0 ≤ n + d)
    (closing : text.toList.head? = some '}' → 1 ≤ n) : Neat (Code.verbatim text : List (Segment β)) n d := by
  by_cases empty : text = ""
  · subst empty
    have none : d = 0 := line.balance.symm
    rw [none]
    exact nil.fit enough.1 rfl
  · rw [Code.verbatim, if_neg empty]
    exact .line line enough closing

theorem lines (line : Line text d) (flat : '\n' ∉ text.toList) (enough : 0 ≤ n ∧ 0 ≤ n + d)
    (closing : (Text.trim text).toList.head? = some '}' → 1 ≤ n) :
    Neat (Code.lines text : List (Segment β)) n d := by
  have trimmed := line.trim flat
  rw [Code.lines_flat flat]
  by_cases empty : Text.trim text = ""
  · rw [empty] at trimmed
    have none : d = 0 := trimmed.balance.symm
    rw [if_pos empty, none]
    exact nil.fit enough.1 rfl
  · rw [if_neg empty]
    exact .line trimmed enough closing

/-- Where at least one brace is open, a draft may begin as it likes. -/
theorem draft {x : Option Int} (draft : Draft text x) (check : x = some d) :
    Neat (Code.lines text : List (Segment β)) (max 1 (-d)) d := by
  have plain := draft.plain check
  exact lines plain.line plain.flat (by omega) fun _ => by omega

theorem lead {x : Option Int} (lead : Lead text x) (check : x = some d) :
    Neat (Code.lines text : List (Segment β)) (max 0 (-d)) d := by
  have plain := lead.draft.plain check
  exact lines plain.line plain.flat (by omega) fun closes => absurd closes lead.begins.trim.head?_ne

/-- A line at the top that opens no brace. -/
theorem top {x : Option Int} (lead : Lead text x) (check : x = some 0) :
    Neat (Code.lines text : List (Segment β)) 0 0 :=
  .lead lead check

theorem comment (comment : Comment text) : Neat (Code.lines text : List (Segment β)) 0 0 :=
  lines comment.line comment.flat (by omega) fun closes => absurd closes comment.begins.trim.head?_ne

theorem cons (first : Neat (Code.lines text : List (Segment β)) n d)
    (rest : Neat (Code.allLines texts : List (Segment β)) m e) :
    Neat (Code.allLines (text :: texts) : List (Segment β)) (max n (m - d)) (d + e) :=
  first.append rest

theorem flatMap {α : Type} {items : List α} {f : α → List (Segment β)} (each : ∀ item ∈ items, Neat (f item) 0 0) :
    Neat (items.flatMap f) 0 0 := by
  induction items with
  | nil => exact nil
  | cons item items ih =>
    exact (each item (by simp)).append (ih fun other member => each other (by simp [member]))

end Neat

/-! ### User code -/

/-- A closed text as a statement is neat, wherever its beginning may stand. -/
theorem Neat.statement {code : String} {n : Int} (closed : Closed code) (enough : 0 ≤ n)
    (closing : (Text.trim code).toList.head? = some '}' → 1 ≤ n) :
    Neat (statement code : List (Segment β)) n 0 := by
  have line := closed.line
  have semicolon : Plain ";" 0 := Draft.fixed.plain rfl
  simp only [TemplateWeaver.statement]
  split
  · have last : Neat (Code.lines ";" : List (Segment β)) 0 0 := .fit (.lead (.fixed rfl) rfl) (by decide) rfl
    exact .fit (.append (.verbatim line (by omega) closing) last) (by omega) rfl
  · rename_i outside
    generalize Text.trim code = text at line outside closing
    have split : text.toList
        = [] ++ (dropSemicolons text).toList ++ (text.toList.reverse.takeWhile (· == ';')).reverse := by
      rw [List.nil_append, dropSemicolons, String.toList_ofList, ← List.reverse_append,
        List.takeWhile_append_dropWhile, List.reverse_reverse]
    have same : ∀ c ∈ (text.toList.reverse.takeWhile (· == ';')).reverse, c = ';' := by
      intro c member
      simpa using List.mem_takeWhile_imp (List.mem_reverse.mp member)
    have front : Line (dropSemicolons text) 0 :=
      line.trim_of_back split (by simp) fun c member => same c member ▸ rfl
    refine .verbatim (semicolon.line_append front fun comment => outside ?_) (by omega) fun closes => closing ?_
    · -- The semicolons behind a line comment are part of it.
      refine Source.endsInLineComment_of_after ?_
      rw [split, List.nil_append, State.after_append, comment]
      exact (State.after_lineComment fun feed => absurd (same _ feed) (by decide)).1
    · -- A closing brace at the beginning is none of the semicolons.
      rw [split, List.nil_append]
      rw [String.toList_append] at closes
      cases kept : (dropSemicolons text).toList with
      | nil => simp [kept] at closes
      | cons c cs => simpa [kept] using closes

/-- Where a brace is open, a statement may begin as it likes. -/
theorem Neat.action {code : String} (closed : Closed code) :
    Neat (TemplateWeaver.statement code : List (Segment β)) 1 0 :=
  .statement closed (by decide) fun _ => Int.le_refl 1

theorem word_library : Word Names.library where
  toPlain := Draft.fixed.plain rfl
  begins := .fixed rfl

/-- The opening of a watch on a closed expression is neat. -/
theorem Neat.watch {stopper expression : String} (name : Word stopper) (closed : Closed expression) :
    Neat (watch stopper expression : List (Segment β)) 0 1 := by
  have callback : Plain ", (e) \x7b" 1 := Draft.fixed.plain rfl
  have call : Lead (stopper ++ " = " ++ Names.library ++ ".watchAndInvoke(() => ") _ :=
    (Lead.word name).slot word_library.toPlain
  have opener := (call.draft.plain rfl).append_line closed.line
  have begins := call.begins.append (b := Text.trim expression)
  simp only [TemplateWeaver.watch]
  split
  · have first := Neat.verbatim opener (β := β) (n := 0) (by decide) fun closes => absurd closes begins.head?_ne
    exact .fit (first.append (.lead (.fixed rfl) rfl)) (by decide) rfl
  · rename_i outside
    have line := callback.line_append opener fun comment => outside (Source.endsInLineComment_of_after comment)
    exact .verbatim line (by decide) fun closes => absurd closes begins.append.head?_ne

/-! ### Elements -/

variable {field : String} {root : Option String}

theorem word_typeName {name : String} (plain : Plain name 0) : Word (Names.typeName name) where
  toPlain := (word_library.ahead.append plain.draft).plain rfl
  begins := word_library.begins.append.append

theorem word_elementType : Word Names.elementType :=
  word_typeName (Draft.fixed.plain rfl)

theorem word_listenerType : Word Names.listenerType :=
  word_typeName (Draft.fixed.plain rfl)

theorem word_stopperType : Word Names.stopperType :=
  word_typeName (Draft.fixed.plain rfl)

/-- Each tag has a run-time type with a legal name. -/
theorem isMemberName_domType (tag : String) : isMemberName (Tag.domType tag) = true := by
  have legal : ∀ entry ∈ Tag.domTypes, isMemberName entry.2 = true := by decide +kernel
  rw [Tag.domType]
  rcases found : Tag.domTypes.lookup (Tag.lower tag) with _ | name
  · decide +kernel
  · obtain ⟨front, back, split, -⟩ := List.lookup_eq_some_iff.mp found
    exact legal (Tag.lower tag, name) (by simp [split])

theorem neat_elementCode {elementId domType : String} (name : Word field) (type : Plain domType 0)
    (found : ∀ start ∈ root, Plain start 0) (part : Section) :
    Neat (elementCode root field elementId domType part : List (Segment β)) 0 0 := by
  cases part with
  | declarations => exact .top ((Lead.word (word_typeName type)).slot name.toPlain) rfl
  | created =>
    cases root with
    | none =>
      have top : Plain Names.root 0 := Draft.fixed.plain rfl
      exact .top ((Lead.word name).slot top).quote rfl
    | some clone =>
      have start := found clone rfl
      exact .top ((((Lead.word name).slot start).quote.slot start).slot start).quote rfl
  | mounted | unmounted => exact .nil

/-! ### Listeners, bindings and components -/

theorem plain_dispatch : Plain Names.dispatch 0 :=
  word_library.ahead.plain rfl

theorem neat_listenersCode {events : OrderedMap (List Listener)} (name : Word field)
    (lawful : ∀ entry ∈ eventListeners events, Word entry.2.field ∧ Closed entry.2.action) (part : Section) :
    Neat (listenersCode field events part : List (Segment β)) 0 0 := by
  cases part with
  | declarations =>
    refine .flatMap fun entry member => ?_
    obtain ⟨kept, -⟩ := lawful entry member
    exact .top ((Lead.word word_listenerType).slot kept.toPlain) rfl
  | created => exact .nil
  | mounted =>
    refine .flatMap fun entry member => ?_
    obtain ⟨kept, closed⟩ := lawful entry member
    exact .fit ((Neat.append (.lead (.word kept) rfl) (.action closed)).append
      (.cons (.draft plain_dispatch.draft rfl) <|
       .cons (.draft .fixed rfl) <|
       .cons (.lead ((Lead.word name).quote.slot kept.toPlain) rfl) .nil)) (by decide) rfl
  | unmounted =>
    refine .flatMap fun entry member => ?_
    obtain ⟨kept, -⟩ := lawful entry member
    exact .fit
      (.cons (.lead ((Lead.word name).quote.slot kept.toPlain) rfl) <|
       .cons (.lead (.word kept) rfl) .nil) (by decide) rfl

/-- The member that an attribute writes to is plain, whatever the attribute's name is. -/
theorem plain_attributeMember (name : String) : Plain (attributeMember name) 0 := by
  rw [attributeMember]
  split
  · exact Draft.fixed.quote.plain rfl
  split
  · exact Draft.fixed.plain rfl
  split
  · rename_i legal
    exact .name legal
  · exact Draft.fixed.quote.plain rfl

/-- What a binding needs: a legal name and a closed expression. -/
structure Binding.Lawful (binding : Binding) : Prop where
  stopper : isMemberName binding.stopper = true
  expression : Closed binding.expression

def AttributeBinding.bindings : AttributeBinding → List Binding
  | .value binding => [binding]
  | .classes bindings => bindings

theorem AttributeBinding.stoppers_eq (binding : AttributeBinding) :
    binding.stoppers = binding.bindings.map Binding.stopper := by
  cases binding <;> rfl

theorem neat_valueWatch {binding : Binding} (name : Plain field 0) (lawful : binding.Lawful) (key : String) :
    Neat (valueWatch field key binding : List (Segment β)) 0 0 :=
  .fit ((Neat.watch (.name lawful.stopper) lawful.expression).append
    (.cons (.draft (name.ahead.slot (plain_attributeMember key)) rfl) <|
     .cons (.draft .fixed rfl) .nil)) (by decide) rfl

theorem neat_classWatch {binding : Binding} (name : Plain field 0) (lawful : binding.Lawful) :
    Neat (classWatch field binding : List (Segment β)) 0 0 :=
  .fit ((Neat.watch (.name lawful.stopper) lawful.expression).append
    (.cons (.draft .fixed rfl) <|
     .cons (.draft name.ahead rfl) <|
     .cons (.draft .fixed rfl) <|
     .cons (.draft .fixed rfl) <|
     .cons (.draft name.ahead rfl) <|
     .cons (.draft .fixed rfl) <|
     .cons (.draft .fixed rfl) .nil)) (by decide) rfl

theorem neat_contentWatch {binding : Binding} (name : Plain field 0) (lawful : binding.Lawful) :
    Neat (contentWatch field binding : List (Segment β)) 0 0 :=
  .fit ((Neat.watch (.name lawful.stopper) lawful.expression).append
    (.cons (.draft (name.ahead.slot word_library.toPlain) rfl) <|
     .cons (.draft .fixed rfl) .nil)) (by decide) rfl

theorem neat_bindingsCode {attributes : OrderedMap AttributeBinding} {content : Option Binding} (name : Plain field 0)
    (lawful : ∀ entry ∈ attributes.entries, ∀ binding ∈ entry.2.bindings, binding.Lawful)
    (also : ∀ binding ∈ content, binding.Lawful) (part : Section) :
    Neat (bindingsCode field attributes content part : List (Segment β)) 0 0 := by
  have stoppers : ∀ stopper ∈ bindingStoppers attributes content, Word stopper := by
    intro stopper member
    rcases List.mem_append.mp member with own | last
    · obtain ⟨value, inside, kept⟩ := List.mem_flatMap.mp own
      obtain ⟨entry, given, rfl⟩ := List.mem_map.mp inside
      rw [AttributeBinding.stoppers_eq] at kept
      obtain ⟨binding, among, rfl⟩ := List.mem_map.mp kept
      exact .name (lawful entry given binding among).stopper
    · obtain ⟨binding, given, rfl⟩ := List.mem_map.mp last
      exact .name (also binding (by simpa using given)).stopper
  cases part with
  | declarations =>
    exact .flatMap fun stopper member => .top ((Lead.word word_stopperType).slot (stoppers stopper member).toPlain) rfl
  | created => exact .nil
  | mounted =>
    refine .append (.flatMap fun entry member => ?_) (.flatMap fun binding member => ?_)
    · have each := lawful entry member
      rcases entry with ⟨key, binding | bindings⟩
      · exact neat_valueWatch name (each binding (by simp [AttributeBinding.bindings])) key
      · exact .flatMap fun binding inside => neat_classWatch name (each binding inside)
    · exact neat_contentWatch name (also binding (by simpa using member))
  | unmounted =>
    exact .flatMap fun stopper member => .top (.word (stoppers stopper member)) rfl

theorem neat_componentCode {component : ComponentUse} (name : Word field) (legal : Plain component.className 0)
    (values : ∀ value ∈ component.values.entries, Plain value.1 0 ∧ Closed value.2) (part : Section) :
    Neat (componentCode field component part : List (Segment β)) 0 0 := by
  have hook : ∀ {hook : String}, Plain hook 0 →
      Neat (Code.lines s!"{field}.xtag.{hook}();" : List (Segment β)) 0 0 :=
    fun plain => .top ((Lead.word name).slot plain) rfl
  cases part with
  | declarations => exact .nil
  | created =>
    refine .append (.append (.top (.slot (.within legal rfl) name.toPlain) rfl) (.flatMap fun value member => ?_))
      (hook (Draft.fixed.plain rfl))
    obtain ⟨plain, closed⟩ := values value member
    have target : Lead s!"{field}.xtag.{value.1} = " _ := (Lead.word name).slot plain
    refine .statement (Closed.append (target.draft.plain rfl) closed) (Int.le_refl 0) fun closes => ?_
    exact absurd closes target.begins.append.trim.head?_ne
  | mounted => exact hook (Draft.fixed.plain rfl)
  | unmounted => exact hook (Draft.fixed.plain rfl)

/-! ### Regions -/

theorem neat_detachClone {inner : ConditionalCode β} (name : Plain field 0) : Neat (detachClone field inner) 1 0 := by
  have clone : Plain (conditionalRoot field) 0 := name.ahead.plain rfl
  exact .embed (.fit
    (.cons (.draft clone.ahead rfl) <|
     .cons (.draft clone.ahead rfl) .nil) (by decide) rfl) (by decide)

theorem neat_conditionalCode {condition stopper : String} {inner : ConditionalCode β} (name : Word field)
    (kept : Word stopper) (closed : Closed condition) (part : Section) :
    Neat (conditionalCode field condition stopper inner part) 0 0 := by
  cases part with
  | declarations =>
    have note : Comment s!"// Fields for conditional region `{Text.oneLine condition}`." :=
      Comment.append (Comment.append (.fixed rfl) (Text.oneLine_flat condition)) (by decide)
    exact .fit
      (.cons (.comment note) <|
       .cons (.top ((Lead.word word_stopperType).slot kept.toPlain) rfl) <|
       .cons (.top ((Lead.word word_elementType).slot name.toPlain) rfl) <|
       .cons (.top ((Lead.word word_elementType).slot name.toPlain) rfl) <|
       .cons (.top ((Lead.word word_elementType).slot name.toPlain) rfl) <|
       .cons (.top (.within name.toPlain rfl) rfl) .nil) (by decide) rfl
  | created =>
    exact .fit
      (.cons (.top (.within name.toPlain rfl) rfl) <|
       .cons (.top ((Lead.word name).slot name.toPlain) rfl) <|
       .cons (.top ((Lead.word name).slot name.toPlain) rfl) <|
       .cons (.top (((Lead.within name.toPlain rfl).slot name.toPlain).slot name.toPlain) rfl) <|
       .cons (.top (.word name) rfl) <|
       .cons (.top (.word name) rfl) .nil) (by decide) rfl
  | mounted =>
    exact .fit
      (.append (.append (.append (.append (.append (.append
        (.top ((Lead.word name).slot name.toPlain) rfl)
        (.watch kept closed))
        (.cons (.draft .fixed rfl) <|
         .cons (.draft name.within rfl) .nil))
        (neat_detachClone name.toPlain))
        (.cons (.draft name.within rfl) <|
         .cons (.draft (name.ahead.slot name.toPlain) rfl) <|
         .cons (.draft (name.within.slot name.toPlain) rfl) <|
         .cons (.draft (name.ahead.slot name.toPlain) rfl) <|
         .cons (.draft .fixed rfl) .nil))
        (.embed (.embed .nil (by decide)) (by decide)))
        (.cons (.draft ((name.ahead.slot name.toPlain).slot name.toPlain) rfl) <|
         .cons (.draft .fixed rfl) <|
         .cons (.draft .fixed rfl) .nil)) (by decide) rfl
  | unmounted =>
    have clone : Plain (conditionalRoot field) 0 := name.ahead.plain rfl
    exact .fit
      (.append (.append
        (.cons (.lead (.word kept) rfl) <|
         .cons (.lead (.within clone rfl) rfl) .nil)
        (neat_detachClone name.toPlain))
        (.draft .fixed rfl)) (by decide) rfl

theorem neat_removeClones (name : Word field) : Neat (removeClones field : List (Segment β)) 0 0 :=
  .fit
    (.cons (.lead (.within name.toPlain rfl) rfl) <|
     .cons (.draft .fixed rfl) <|
     .cons (.draft .fixed rfl) <|
     .cons (.lead (.word name) rfl) .nil) (by decide) rfl

theorem oneLine_name {name : String} (legal : isMemberName name = true) : Text.oneLine name = name := by
  refine Text.oneLine_solid fun c member => ?_
  exact Source.not_isBlank_of_isNameStart (Source.isNameStart_of_mem_name legal member)

theorem neat_repeatedCode {item collection stopper itemRoot : String} {inner : Section → β} (name : Word field)
    (legal : isMemberName item = true) (kept : Word stopper) (clone : Plain itemRoot 0) (closed : Closed collection)
    (part : Section) : Neat (repeatedCode field item collection stopper itemRoot inner part) 0 0 := by
  have loop : Plain (Text.oneLine item) 0 := by
    rw [oneLine_name legal]
    exact .name legal
  cases part with
  | declarations =>
    have note : Comment s!"// Fields for repeated region `{Text.oneLine item} in {Text.oneLine collection}`." :=
      Comment.append (Comment.append (Comment.append (Comment.append (.fixed rfl) (Text.oneLine_flat item)) (by decide))
        (Text.oneLine_flat collection)) (by decide)
    exact .fit
      (.cons (.comment note) <|
       .cons (.top ((Lead.word word_stopperType).slot kept.toPlain) rfl) <|
       .cons (.top ((Lead.word word_elementType).slot name.toPlain) rfl) <|
       .cons (.top (.within name.toPlain rfl) rfl) .nil) (by decide) rfl
  | created =>
    exact .fit
      (.cons (.top (.within name.toPlain rfl) rfl) <|
       .cons (.top ((Lead.word name).slot name.toPlain) rfl) <|
       .cons (.top (.word name) rfl) .nil) (by decide) rfl
  | mounted =>
    exact .fit
      (.append (.append (.append (.append (.append (.append
        (.watch kept closed)
        (neat_removeClones name))
        (.cons (.draft .fixed rfl) <|
         .cons (.draft loop.within rfl) <|
         .cons (.draft (clone.within.slot name.toPlain) rfl) .nil))
        (.embed (.embed (.embed .nil (by decide)) (by decide)) (by decide)))
        (.cons (.draft (name.ahead.slot clone) rfl) <|
         .cons (.draft name.ahead rfl) .nil))
        (.embed .nil (by decide)))
        (.cons (.draft clone.ahead rfl) <|
         .cons (.draft .fixed rfl) <|
         .cons (.draft .fixed rfl) <|
         .cons (.draft .fixed rfl) <|
         .cons (.draft .fixed rfl) .nil)) (by decide) rfl
  | unmounted => exact .fit (.append (.top (.word kept) rfl) (neat_removeClones name)) (by decide) rfl

end TemplateWeaver
