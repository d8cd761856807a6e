import TemplateWeaver.Proofs.Source.Quoted
import TemplateWeaver.Weave.Feature

/-!
Members that bound attributes write to. A member tells the attribute that it is written for
(`boundName?_attributeMember`): no plain name has a bracket in it, and a key in brackets is a literal, which can be
read. So two attributes have one member only if they are one attribute, or `class` and `className`
(`attributeMember_eq_iff`).
-/
namespace TemplateWeaver

open Source (isMemberName literal readLiteral?)

/-- The attribute that a member is written for: a data attribute by its key, another attribute by its name in the
    brackets, or a property by its own name. -/
def boundName? (member : String) : Option String :=
  match Text.dropWord? "dataAttributes[".toList member.toList with
  | some quoted => (readLiteral? (String.ofList quoted)).map fun (key, _) => "data-" ++ key
  | none =>
    match Text.dropWord? "attributes[".toList member.toList with
    | some quoted => (readLiteral? (String.ofList quoted)).map fun (name, _) => name
    | none => some member

/-- Behind the words before a bracket, the literal in it is left. -/
theorem dropWord?_bracket (word key : String) :
    Text.dropWord? word.toList (word ++ literal key ++ "]").toList = some (literal key ++ "]").toList := by
  rw [Text.dropWord?_eq_some_iff, String.append_assoc, String.toList_append]

theorem boundName?_data (key : String) :
    boundName? ("dataAttributes[" ++ literal key ++ "]") = some ("data-" ++ key) := by
  rw [boundName?, dropWord?_bracket]
  simp only [String.ofList_toList, Source.readLiteral?_append, Option.map_some]

theorem boundName?_attribute (name : String) : boundName? ("attributes[" ++ literal name ++ "]") = some name := by
  have other : Text.dropWord? "dataAttributes[".toList ("attributes[" ++ literal name ++ "]").toList = none := by
    rw [String.append_assoc, String.toList_append]
    rfl
  rw [boundName?, other]
  simp only [dropWord?_bracket, String.ofList_toList, Source.readLiteral?_append, Option.map_some]

/-- A plain name is no member with brackets. -/
theorem boundName?_property {name : String} (legal : isMemberName name = true) : boundName? name = some name := by
  have none : ∀ word : List Char, '[' ∈ word → Text.dropWord? word name.toList = none := by
    intro word bracket
    rw [Option.eq_none_iff_forall_ne_some]
    intro rest behind
    have inside : '[' ∈ name.toList := by
      rw [Text.dropWord?_eq_some_iff.mp behind]
      exact List.mem_append_left _ bracket
    have letter := Source.isNameStart_of_mem_name legal inside
    revert letter
    decide
  rw [boundName?, none _ (by decide), none _ (by decide)]

/-- The name that a member tells: the attribute's own, but for the class that of its property. -/
theorem boundName?_attributeMember (name : String) :
    boundName? (attributeMember name) = some (if name = "class" then "className" else name) := by
  rw [attributeMember]
  split
  · rename_i key behind
    have split : name = "data-" ++ String.ofList key := by
      rw [← String.toList_inj, Text.dropWord?_eq_some_iff.mp behind]
      simp
    have other : name ≠ "class" := by
      rintro rfl
      cases behind
    rw [if_neg other, split]
    exact boundName?_data _
  · by_cases isClass : name = "class"
    · rw [if_pos isClass, if_pos isClass]
      exact boundName?_property rfl
    rw [if_neg isClass, if_neg isClass]
    by_cases legal : isMemberName name = true
    · rw [if_pos legal]
      exact boundName?_property legal
    · rw [if_neg legal]
      exact boundName?_attribute name

/-- Two attributes write to one member only if they are the same, or the class by its two names, which is the property
    `className`. -/
theorem attributeMember_eq_iff (name other : String) :
    (attributeMember name = attributeMember other ↔
        name = other ∨ (name = "class" ∧ other = "className") ∨ (name = "className" ∧ other = "class")) ∧
      attributeMember "class" = "className" ∧ attributeMember "className" = "className" := by
  have classes : attributeMember "class" = "className" ∧ attributeMember "className" = "className" := ⟨rfl, rfl⟩
  refine ⟨⟨?_, ?_⟩, classes⟩
  · intro same
    have read := boundName?_attributeMember name
    rw [same, boundName?_attributeMember, Option.some.injEq] at read
    by_cases first : name = "class"
    · by_cases second : other = "class"
      · exact .inl (first.trans second.symm)
      · rw [if_neg second, if_pos first] at read
        exact .inr (.inl ⟨first, read⟩)
    · by_cases second : other = "class"
      · rw [if_pos second, if_neg first] at read
        exact .inr (.inr ⟨read.symm, second⟩)
      · rw [if_neg second, if_neg first] at read
        exact .inl read.symm
  · rintro (rfl | ⟨rfl, rfl⟩ | ⟨rfl, rfl⟩)
    · rfl
    · rw [classes.1, classes.2]
    · rw [classes.1, classes.2]

end TemplateWeaver
