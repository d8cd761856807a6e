import TemplateWeaver.Proofs.Assembly.Splicing
import TemplateWeaver.Proofs.Source.FirstHead
import TemplateWeaver.Proofs.Weave.Faults

/-!
Where the members of a component go. Whether a template has a fault does not depend on the scope that it is woven into
(`fault_weave`), so a component is cut exactly at the brace of the first class head of its user's code, between two
tokens of that code, and nothing of the code gets lost (`assemble_inserts_members`).
-/
namespace TemplateWeaver

open Source (ClassHead Token isMemberName lex mask)
open Text (byteSize)

/-- The fault that ends a walk is the first fault of an element, wherever the elements are woven. -/
theorem fault_weave (e : Element) (scope : Scope) (w : Workspace) :
    (e.weave scope w).2 = e.stops.findSome? Stop.fault? := by
  have runs : e.weave scope w = _ := weave_eq_run (Walk.start scope w) [] e.toNode
  rw [runs]
  exact Walk.fault_run _ _

theorem Component.fault_woven (u : Component) (config : Config) (scope : Scope) (w : Workspace) :
    (u.woven config).2 = (u.template.weave scope w).2 := by
  rw [woven, fault_weave, fault_weave]

/-- The brace of a class head in masked text is a token of the text, and the text is cut behind it. -/
theorem cut_behind_token {name code : String} (head : ClassHead name.toList (mask code).toList) :
    ∃ front back, lex code.toList = front ++ .code '{' :: back ∧
      Text.takeBytes code head.stop = String.ofList (front.flatMap Token.text ++ ['{']) ∧
      Text.dropBytes code head.stop = String.ofList (back.flatMap Token.text) := by
  have masked : (lex code.toList).flatMap Token.masked
      = (head.before ++ "class".toList ++ head.gap ++ name.toList ++ head.tail) ++ '{' :: head.body := by
    rw [Source.flatMap_masked_lex, ← String.toList_ofList (l := Source.State.run _ _ _), ← Source.mask_eq]
    exact head.reads.trans (by simp)
  obtain ⟨front, back, tokens, shown⟩ := Source.exists_brace_token masked
  have split : code.toList = (front.flatMap Token.text ++ ['{']) ++ back.flatMap Token.text := by
    rw [← Source.flatMap_text_lex code.toList, tokens]
    simp [Token.text]
  have size : head.stop = byteSize (front.flatMap Token.text ++ ['{']) := by
    rw [ClassHead.stop, ← shown, Text.byteSize_append, Text.byteSize_append,
      (Source.Blanked.tokens front).byteSize_eq]
  refine ⟨front, back, tokens, ?_, ?_⟩
  · rw [size, Text.takeBytes_of_split split]
  · rw [size, Text.dropBytes_of_split split]

/-- The members of a component whose template has no fault go right behind the brace of the first class head of the
    user's code without its library directive. That brace is no part of a comment or a literal, and the code around
    the members is the user's, whole. Without a class head the user's code comes out as it went in, with its
    directive. -/
theorem assemble_inserts_members (u : Component) (config : Config) (log : List Diagnostic) {scope : Scope}
    {w : Workspace} (emits : (u.template.weave scope w).2 = none) (legal : isMemberName u.className = true) :
    let code := (Source.splitLibrary u.userCode).2
    let opening := preamble config u.fileName
      (Source.libraryDirective (Source.splitLibrary u.userCode).1 none u.fileName) u.references
    (∀ head : ClassHead u.className.toList (mask code).toList, head.IsFirst →
      (u.assemble config log).1 = .ok (opening ++ Text.takeBytes code head.stop ++ "\n" ++ u.members config
          ++ Text.dropBytes code head.stop) ∧
        Text.takeBytes code head.stop ++ Text.dropBytes code head.stop = code ∧
        ∃ front back, lex code.toList = front ++ .code '{' :: back ∧
          Text.takeBytes code head.stop = String.ofList (front.flatMap Token.text ++ ['{']) ∧
          Text.dropBytes code head.stop = String.ofList (back.flatMap Token.text)) ∧
      (Nonempty (ClassHead u.className.toList (mask code).toList) →
        ∃ head : ClassHead u.className.toList (mask code).toList, head.IsFirst) ∧
      (IsEmpty (ClassHead u.className.toList (mask code).toList) → (u.assemble config log).1 = .ok u.userCode) := by
  intro code opening
  have sound := Component.assemble_of_sound ((u.fault_woven config scope w).trans emits) log
  refine ⟨?_, ClassHead.exists_isFirst, ?_⟩
  · intro head least
    obtain ⟨front, back, tokens, takes, drops⟩ := cut_behind_token head
    refine ⟨?_, ?_, front, back, tokens, takes, drops⟩
    · have offset : Source.classBodyOffset? u.className (mask (Source.splitLibrary u.userCode).2) = some head.stop :=
        Source.classBodyOffset?_first legal least
      rw [sound]
      simp only [offset]
      rfl
    · rw [takes, drops, ← String.ofList_append]
      have text := Source.flatMap_text_lex code.toList
      rw [tokens] at text
      rw [← String.ofList_toList (s := code), ← text]
      simp [Token.text]
  · intro none
    have missed : Source.classBodyOffset? u.className (mask (Source.splitLibrary u.userCode).2) = .none :=
      (Source.classBodyOffset?_eq_none_iff u.className (mask code)).mpr none
    rw [sound]
    simp only [missed]

/-- Code in which a literal, a longer name and a member look like the class before it comes. -/
def tallyCode : String :=
  "'class T \x7b' // \x7b\nclass T$ \x7b\x7d\na.class T;\nclass T /* \x7b */ \x7b\x7d\n"

def tally : Component where
  fileName := "tally.html"
  className := "T"
  userCode := "library t;\n" ++ tallyCode
  template :=
    { head := { tag := "div" }
      children := [.element { tag := "b", info := some { field := some "_sum", elementId := some "sum" } } []] }

/-- The text that the class of `tally` gets. -/
def tallyMembers : String :=
  "  // Generated from the template.\n"
    ++ "  autogenerated.Element _sum;\n"
    ++ "  void created_autogenerated() \x7b\n"
    ++ "    var _root = this;\n"
    ++ "    _sum = _root.query('#sum');\n"
    ++ "  \x7d\n"
    ++ "  void inserted_autogenerated() \x7b\n"
    ++ "  \x7d\n"
    ++ "  void removed_autogenerated() \x7b\n"
    ++ "  \x7d\n"

theorem tally_split : Source.splitLibrary tally.userCode = (some "library t;", tallyCode) := by
  have span : Source.directiveSpan? (mask tally.userCode) = some (0, 11) := by
    rw [Source.mask_eq]
    decide +kernel
  rw [Source.splitLibrary, span]
  decide +kernel

theorem tally_found : Source.classBodyOffset? tally.className (mask tallyCode) = some 57 := by
  rw [Source.mask_eq]
  decide +kernel

theorem assemble_inserts_members_tally :
    ∃ head : ClassHead tally.className.toList (mask tallyCode).toList, head.IsFirst ∧ head.stop = 57 ∧
      (tally.assemble {} []).1 = .ok (preamble {} "tally.html" "library t;" [] ++ Text.takeBytes tallyCode 57
        ++ "\n" ++ tally.members {} ++ Text.dropBytes tallyCode 57) ∧
      tally.members {} = tallyMembers ∧ Text.dropBytes tallyCode 57 = "\x7d\n" := by
  obtain ⟨head, least, stop⟩ := Source.exists_first_of_classBodyOffset? tally_found
  have emits : (tally.template.weave unitScope {}).2 = none := by decide +kernel
  have inserts := assemble_inserts_members tally {} [] emits (by decide +kernel)
  rw [tally_split] at inserts
  obtain ⟨inserted, -⟩ := inserts.1 head least
  rw [stop] at inserted
  exact ⟨head, least, stop, inserted, by decide +kernel, by decide +kernel⟩

end TemplateWeaver
