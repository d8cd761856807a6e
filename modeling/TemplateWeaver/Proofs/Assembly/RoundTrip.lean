import TemplateWeaver.Assembly.Codec
import TemplateWeaver.Proofs.Markup.RoundTrip

/-!
Units and settings are read back from the text they were written to. A unit is a tagged record, so it
is taken in whole: one that nests deeper than the limit is refused (`readTagged_of_deep`), and every
other comes back as it was. Settings are never that deep (`Config.depth_toJson`).
-/
namespace TemplateWeaver

open Json

/-! ### Settings -/

theorem LibraryImport.faithful : Faithful LibraryImport.read LibraryImport.toJson where
  textual i := .object (by simp [faithful_text.textual, faithful_nullableText.textual])
  back i room held fits := by
    obtain ⟨r, record, holds⟩ := readRecord_ofFields ["uri", "prefix"] rfl (by decide) held fits
    have uri := faithful_text.required (holds "uri" _ rfl)
    have name := faithful_nullableText.optional (holds "prefix" _ rfl) none
    simp [LibraryImport.read, LibraryImport.toJson, Record.nullable, record, uri, name]

theorem Config.faithful : Faithful Config.read Config.toJson where
  textual c := .object (by simp [faithful_flag.textual, LibraryImport.faithful.list.textual])
  back c room held fits := by
    obtain ⟨r, record, holds⟩ :=
      readRecord_ofFields ["emitHeader", "runtimeImports", "preserveWhitespace"] rfl (by decide) held fits
    have banner := faithful_flag.optional (holds "emitHeader" _ rfl)
    have imports := LibraryImport.faithful.list.optional (holds "runtimeImports" _ rfl)
    have keepBlank := faithful_flag.optional (holds "preserveWhitespace" _ rfl)
    simp [Config.read, Config.toJson, record, banner, imports, keepBlank]

theorem LibraryImport.depth_toJson (i : LibraryImport) : i.toJson.depth = 1 := by
  rcases i with ⟨uri, _ | name⟩ <;> rfl

/-- Settings hold a list of imports, and an import holds texts. -/
theorem Config.depth_toJson (c : Config) : c.toJson.depth ≤ 3 := by
  have imports : depthItems (c.imports.map LibraryImport.toJson) ≤ 1 := by
    refine depthItems_le.mpr (List.forall_mem_map.mpr fun i _ => ?_)
    exact Nat.le_of_eq i.depth_toJson
  have lists : c.toJson.depth = depthItems (c.imports.map LibraryImport.toJson) + 2 := by
    simp [Config.toJson, ofFields, depth, depthMembers]
  omega

/-! ### Units -/

theorem Component.textual_fields (u : Component) : ∀ field ∈ u.fields, Textual field.2 := by
  simp [Component.fields, faithful_text.textual, faithful_flag.textual, Element.faithful.textual,
    ComponentUse.faithful.list.textual]

theorem Component.faithful : Faithful Component.read Component.toJson where
  textual u := .object u.textual_fields
  back u room held fits := by
    obtain ⟨r, record, holds⟩ := readRecord_ofFields Component.fieldNames rfl (by decide) held fits
    have fileName := faithful_text.required (holds "fileName" _ rfl)
    have className := faithful_text.required (holds "constructor" _ rfl)
    have userCode := faithful_text.optional (holds "userCode" _ rfl) ""
    have template := Element.faithful.required (holds "template" _ rfl)
    have shadowRoot := faithful_flag.optional (holds "shadowDom" _ rfl) false
    have inlineMarkup := faithful_flag.optional (holds "inlineMarkup" _ rfl) false
    have references := ComponentUse.faithful.list.optional (holds "references" _ rfl) []
    simp [Component.read, Component.toJson, record, fileName, className, userCode, template, shadowRoot, inlineMarkup,
      references]

theorem Page.textual_fields (u : Page) : ∀ field ∈ u.fields, Textual field.2 := by
  simp [Page.fields, faithful_text.textual, faithful_nullableText.textual, Element.faithful.textual,
    ComponentUse.faithful.list.textual]

theorem Page.faithful : Faithful Page.read Page.toJson where
  textual u := .object u.textual_fields
  back u room held fits := by
    obtain ⟨r, record, holds⟩ :=
      readRecord_ofFields ["fileName", "libraryName", "userCode", "body", "references"] rfl (by decide) held fits
    have fileName := faithful_text.required (holds "fileName" _ rfl)
    have libraryName := faithful_nullableText.optional (holds "libraryName" _ rfl) none
    have userCode := faithful_text.optional (holds "userCode" _ rfl) ""
    have body := Element.faithful.required (holds "body" _ rfl)
    have references := ComponentUse.faithful.list.optional (holds "references" _ rfl) []
    simp [Page.read, Page.toJson, Record.nullable, record, fileName, libraryName, userCode, body, references]

theorem CompilationUnit.textual_toJson (u : CompilationUnit) : Textual u.toJson := by
  cases u with
  | component unit => exact .object (List.forall_mem_cons.mpr ⟨.text _, unit.textual_fields⟩)
  | page unit => exact .object (List.forall_mem_cons.mpr ⟨.text _, unit.textual_fields⟩)

theorem CompilationUnit.faithful : Faithful CompilationUnit.read CompilationUnit.toJson where
  textual := CompilationUnit.textual_toJson
  back u room held fits := by
    have textual := u.textual_toJson
    cases u with
    | component unit =>
      refine readTagged_ofFields held (by decide) (by simp [Component.fields]) textual fits fun within => ?_
      rw [if_pos rfl]
      exact congrArg (Option.map _) (Component.faithful.back unit true within)
    | page unit =>
      refine readTagged_ofFields held (by decide) (by simp [Page.fields]) textual fits fun within => ?_
      rw [if_neg (by decide)]
      exact congrArg (Option.map _) (Page.faithful.back unit true within)

/-! ### Texts -/

/-- The text of a unit gives the unit back, maps in their order, if at most 127 containers lie within
    one another in it, and nothing otherwise. The text of settings always gives the settings back. -/
theorem decode_render :
    (∀ u : CompilationUnit, decode? CompilationUnit.read (render u.toJson) =
      if u.toJson.depth ≤ 127 then some u else none) ∧
    ∀ c : Config, decode? Config.read (render c.toJson) = some c := by
  refine ⟨fun u => ?_, fun c => ?_⟩
  · split
    · next fits => exact CompilationUnit.faithful.decode?_render fits
    · next deep =>
      rw [decode?, u.textual_toJson.parse?_render, Option.bind_some]
      exact readTagged_of_deep (Nat.lt_of_not_le deep)
  · exact Config.faithful.decode?_render (Nat.le_trans c.depth_toJson (by decide))

end TemplateWeaver
