import TemplateWeaver.Markup.Printer
import TemplateWeaver.Proofs.OrderedMap

/-!
Markup is read back as the nodes it was written from. The reader cuts markup into tags and texts (`markupTokens?`) and
makes trees of them, with the elements whose end tag has not come on a stack (`buildTrees`). A start tag is read with
its attributes, whatever their values (`readAttrs?_attrsText`), and a text up to the next tag, so the markup of nodes is
read as their tags and texts (`markupTokens?_nodesMarkup`). From these the same trees are made again
(`buildTrees_tokensAll`).
-/
namespace TemplateWeaver

/-! ### The reader -/

/-- What can be read off markup. -/
inductive Tree where
  | element (tag : String) (attrs : List (String × String)) (children : List Tree)
  | text (value : String)

/-- A piece of markup that is read at once. -/
inductive MarkupToken where
  | start (tag : String) (attrs : List (String × String))
  | stop (tag : String)
  | text (value : String)

/-- What the names of tags and attributes are made of. -/
def isMarkupNameChar (c : Char) : Bool :=
  !(Text.isBlank c || ['<', '>', '/', '=', '"'].contains c)

/-- A name at the beginning of a text, and what follows it. -/
def readMarkupName? (cs : List Char) : Option (String × List Char) :=
  if (cs.takeWhile isMarkupNameChar).isEmpty then none
  else some (String.ofList (cs.takeWhile isMarkupNameChar), cs.dropWhile isMarkupNameChar)

/-- The value of an attribute up to its closing quote, and what follows the quote. -/
def readAttrValue? : List Char → Option (List Char × List Char)
  | [] => none
  | '"' :: rest => some ([], rest)
  | '&' :: 'a' :: 'm' :: 'p' :: ';' :: rest => (readAttrValue? rest).map fun read => ('&' :: read.1, read.2)
  | '&' :: 'q' :: 'u' :: 'o' :: 't' :: ';' :: rest => (readAttrValue? rest).map fun read => ('"' :: read.1, read.2)
  | c :: rest => (readAttrValue? rest).map fun read => (c :: read.1, read.2)

/-- An attribute behind the space that leads it, and what follows it. -/
def readAttr? (cs : List Char) : Option ((String × String) × List Char) :=
  match readMarkupName? cs with
  | some (name, '=' :: '"' :: rest) =>
    (readAttrValue? rest).map fun read => ((name, String.ofList read.1), read.2)
  | _ => none

theorem length_readMarkupName? {cs rest : List Char} {name : String} (read : readMarkupName? cs = some (name, rest)) :
    rest.length < cs.length := by
  rw [readMarkupName?] at read
  split at read
  · cases read
  · rename_i some
    cases read
    have whole := congrArg List.length (List.takeWhile_append_dropWhile (p := isMarkupNameChar) (l := cs))
    have positive := List.length_pos_iff.mpr (fun empty => some (List.isEmpty_iff.mpr empty))
    rw [List.length_append] at whole
    omega

theorem length_readAttrValue? {cs value rest : List Char} (read : readAttrValue? cs = some (value, rest)) :
    rest.length < cs.length := by
  fun_induction readAttrValue? cs generalizing value with
  | case1 => cases read
  | case2 after =>
    cases read
    simp
  | case3 after ih | case4 after ih | case5 c after _ _ _ ih =>
    obtain ⟨⟨inner, behind⟩, found, same⟩ := Option.map_eq_some_iff.mp read
    cases same
    have shorter := ih found
    simp only [List.length_cons] at shorter ⊢
    omega

theorem length_readAttr? {cs rest : List Char} {attr : String × String} (read : readAttr? cs = some (attr, rest)) :
    rest.length < cs.length := by
  rw [readAttr?] at read
  split at read
  · rename_i name inside named
    obtain ⟨⟨value, behind⟩, found, same⟩ := Option.map_eq_some_iff.mp read
    cases same
    have first := length_readMarkupName? named
    have second := length_readAttrValue? found
    simp only [List.length_cons] at first ⊢
    omega
  · cases read

/-- The attributes of a start tag up to its end, and what follows the tag. -/
def readAttrs? (cs : List Char) : Option (List (String × String) × List Char) :=
  match cs with
  | '>' :: rest => some ([], rest)
  | ' ' :: rest =>
    match _found : readAttr? rest with
    | some (attr, after) => (readAttrs? after).map fun read => (attr :: read.1, read.2)
    | none => none
  | _ => none
termination_by cs.length
decreasing_by
  have shorter := length_readAttr? _found
  simp only [List.length_cons]
  omega

theorem length_readAttrs? {cs rest : List Char} {attrs : List (String × String)}
    (read : readAttrs? cs = some (attrs, rest)) : rest.length < cs.length := by
  fun_induction readAttrs? cs generalizing attrs with
  | case1 after =>
    cases read
    simp
  | case2 inside attr after found ih =>
    obtain ⟨⟨inner, behind⟩, more, same⟩ := Option.map_eq_some_iff.mp read
    cases same
    have first := length_readAttr? found
    have second := ih more
    simp only [List.length_cons] at second ⊢
    omega
  | case3 => cases read
  | case4 => cases read

/-- The first tag or text, and what follows it. A text goes on to the next tag. -/
def readToken? : List Char → Option (MarkupToken × List Char)
  | [] => none
  | '<' :: '/' :: rest =>
    match readMarkupName? rest with
    | some (tag, '>' :: after) => some (.stop tag, after)
    | _ => none
  | '<' :: rest =>
    (readMarkupName? rest).bind fun (tag, inside) =>
      (readAttrs? inside).map fun (attrs, after) => (.start tag attrs, after)
  | c :: rest =>
    some (.text (String.ofList (c :: rest.takeWhile (· ≠ '<'))), rest.dropWhile (· ≠ '<'))

theorem length_readToken? {cs rest : List Char} {token : MarkupToken} (read : readToken? cs = some (token, rest)) :
    rest.length < cs.length := by
  rw [readToken?.eq_def] at read
  split at read
  · cases read
  · split at read
    · rename_i named
      cases read
      have shorter := length_readMarkupName? named
      simp only [List.length_cons] at shorter ⊢
      omega
    · cases read
  · obtain ⟨⟨tag, inside⟩, named, more⟩ := Option.bind_eq_some_iff.mp read
    obtain ⟨⟨attrs, after⟩, found, same⟩ := Option.map_eq_some_iff.mp more
    cases same
    have first := length_readMarkupName? named
    have second := length_readAttrs? found
    simp only [List.length_cons]
    omega
  · cases read
    exact Nat.lt_succ_of_le (List.dropWhile_sublist _).length_le

/-- The tags and texts that markup consists of. -/
def markupTokens? (cs : List Char) : Option (List MarkupToken) :=
  if cs.isEmpty then some []
  else
    match _found : readToken? cs with
    | some (token, rest) => (markupTokens? rest).map (token :: ·)
    | none => none
termination_by cs.length
decreasing_by exact length_readToken? _found

/-- An element whose end tag has not been read, with the nodes before it. -/
structure OpenElement where
  tag : String
  attrs : List (String × String)
  before : List Tree

/-- The trees that tokens stand for. `opened` are the elements that are open, the innermost first, and `read` are the
    nodes so far in the innermost. -/
def buildTrees : List OpenElement → List Tree → List MarkupToken → Option (List Tree)
  | [], read, [] => some read
  | _ :: _, _, [] => none
  | opened, read, .text value :: rest => buildTrees opened (read ++ [.text value]) rest
  | opened, read, .start tag attrs :: rest =>
    if Tag.isVoid tag then buildTrees opened (read ++ [.element tag attrs []]) rest
    else buildTrees (⟨tag, attrs, read⟩ :: opened) [] rest
  | [], _, .stop _ :: _ => none
  | inner :: opened, read, .stop tag :: rest =>
    if tag = inner.tag then buildTrees opened (inner.before ++ [.element inner.tag inner.attrs read]) rest
    else none

/-- The trees of a whole text. -/
def readMarkup? (markup : String) : Option (List Tree) :=
  (markupTokens? markup.toList).bind (buildTrees [] [])

/-! ### Names and attributes -/

def isMarkupName (name : String) : Bool :=
  !name.toList.isEmpty && name.toList.all isMarkupNameChar

/-- A run of characters is read off whole if the one behind it is of another kind. -/
theorem span_exact {p : Char → Bool} {front rest : List Char} (inside : ∀ c ∈ front, p c = true)
    (edge : ∀ c ∈ rest.head?, p c = false) :
    (front ++ rest).takeWhile p = front ∧ (front ++ rest).dropWhile p = rest := by
  rw [List.takeWhile_append_of_pos inside, List.dropWhile_append_of_pos inside]
  cases rest with
  | nil => simp
  | cons c rest =>
    have outside := edge c rfl
    simp [outside]

theorem readMarkupName?_append {name : String} {rest : List Char} (legal : isMarkupName name = true)
    (edge : ∀ c ∈ rest.head?, isMarkupNameChar c = false) :
    readMarkupName? (name.toList ++ rest) = some (name, rest) := by
  rw [isMarkupName, Bool.and_eq_true, Bool.not_eq_true', List.all_eq_true] at legal
  obtain ⟨front, back⟩ := span_exact legal.2 edge
  rw [readMarkupName?, front, back, if_neg (by simp [legal.1]), String.ofList_toList]

/-- Every character is read back from the way it is written. -/
theorem readAttrValue?_escapeChar (c : Char) (rest : List Char) :
    readAttrValue? (escapeAttributeChar c ++ rest) =
      (readAttrValue? rest).map fun read => (c :: read.1, read.2) := by
  by_cases ampersand : c = '&'
  · subst ampersand
    rfl
  · by_cases quote : c = '"'
    · subst quote
      rfl
    · have plain : escapeAttributeChar c = [c] := by
        rw [escapeAttributeChar.eq_def]
        split <;> simp_all
      rw [plain, List.singleton_append, readAttrValue?.eq_def]
      split <;> simp_all

/-- A value is read back, whatever stands in it. -/
theorem readAttrValue?_escape (value rest : List Char) :
    readAttrValue? (value.flatMap escapeAttributeChar ++ '"' :: rest) = some (value, rest) := by
  induction value with
  | nil => rfl
  | cons c value ih =>
    rw [List.flatMap_cons, List.append_assoc, readAttrValue?_escapeChar, ih]
    rfl

theorem readAttr?_markup {name : String} (value : String) (rest : List Char) (legal : isMarkupName name = true) :
    readAttr? ((attributeMarkup name value).toList ++ rest) = some ((name, value), rest) := by
  have split : (attributeMarkup name value).toList ++ rest =
      name.toList ++ '=' :: '"' :: (value.toList.flatMap escapeAttributeChar ++ '"' :: rest) := by
    simp [attributeMarkup]
  rw [split, readAttr?, readMarkupName?_append legal (by simp [isMarkupNameChar])]
  simp only [readAttrValue?_escape, Option.map_some, String.ofList_toList]

theorem readAttrs?_cons {cs rest : List Char} {attr : String × String} (read : readAttr? cs = some (attr, rest)) :
    readAttrs? (' ' :: cs) = (readAttrs? rest).map fun more => (attr :: more.1, more.2) := by
  rw [readAttrs?]
  split
  · rename_i found
    rw [read] at found
    cases found
    rfl
  · rename_i missing
    rw [read] at missing
    cases missing

/-- Attributes with a space before each. -/
def attrsText (attrs : List (String × String)) : String :=
  String.join (attrs.map fun attr => " " ++ attributeMarkup attr.1 attr.2)

theorem toList_attrsText_cons (attr : String × String) (attrs : List (String × String)) (rest : List Char) :
    (attrsText (attr :: attrs)).toList ++ rest =
      ' ' :: ((attributeMarkup attr.1 attr.2).toList ++ ((attrsText attrs).toList ++ rest)) := by
  simp [attrsText]

/-- Attributes are read back, in their order. -/
theorem readAttrs?_attrsText {attrs : List (String × String)} (rest : List Char)
    (legal : ∀ attr ∈ attrs, isMarkupName attr.1 = true) :
    readAttrs? ((attrsText attrs).toList ++ '>' :: rest) = some (attrs, rest) := by
  induction attrs with
  | nil =>
    rw [readAttrs?.eq_def]
    rfl
  | cons attr attrs ih =>
    obtain ⟨first, later⟩ := List.forall_mem_cons.mp legal
    rw [toList_attrsText_cons, readAttrs?_cons (readAttr?_markup attr.2 _ first), ih later]
    rfl

/-- Behind a tag's name stands something that is not part of it. -/
theorem edge_attrsText (attrs : List (String × String)) (rest : List Char) :
    ∀ c ∈ ((attrsText attrs).toList ++ '>' :: rest).head?, isMarkupNameChar c = false := by
  cases attrs with
  | nil => simp [attrsText, isMarkupNameChar]
  | cons attr attrs =>
    have blank : Text.isBlank ' ' = true := by decide
    simp [toList_attrsText_cons, isMarkupNameChar, blank]

/-! ### Tags and texts -/

section
variable {keepBlank : Bool}

theorem markupTokens?_step {cs rest : List Char} {token : MarkupToken} (read : readToken? cs = some (token, rest)) :
    markupTokens? cs = (markupTokens? rest).map (token :: ·) := by
  have some : ¬ cs.isEmpty = true := by
    intro empty
    rw [List.isEmpty_iff.mp empty] at read
    cases read
  rw [markupTokens?, if_neg some]
  split
  · rename_i found
    rw [read] at found
    cases found
    rfl
  · rename_i missing
    rw [read] at missing
    cases missing

theorem readToken?_start {tag : String} {attrs : List (String × String)} (rest : List Char)
    (legal : isMarkupName tag = true) (names : ∀ attr ∈ attrs, isMarkupName attr.1 = true) :
    readToken? (("<" ++ tag ++ attrsText attrs ++ ">").toList ++ rest) = some (.start tag attrs, rest) := by
  have split : ("<" ++ tag ++ attrsText attrs ++ ">").toList ++ rest =
      '<' :: (tag.toList ++ ((attrsText attrs).toList ++ '>' :: rest)) := by simp
  have tagged := readMarkupName?_append legal (edge_attrsText attrs rest)
  rw [split, readToken?, tagged, Option.bind_some]
  · simp only [readAttrs?_attrsText rest names, Option.map_some]
  · -- A name does not begin with the slash of an end tag.
    intro after slash
    rw [slash, readMarkupName?, List.takeWhile_cons_of_neg (by simp [isMarkupNameChar])] at tagged
    cases tagged

theorem readToken?_stop {tag : String} (rest : List Char) (legal : isMarkupName tag = true) :
    readToken? (("</" ++ tag ++ ">").toList ++ rest) = some (.stop tag, rest) := by
  have split : ("</" ++ tag ++ ">").toList ++ rest = '<' :: '/' :: (tag.toList ++ '>' :: rest) := by simp
  rw [split, readToken?, readMarkupName?_append legal (by simp [isMarkupNameChar])]
  rfl

theorem readToken?_text {value : String} {rest : List Char} (full : value.toList ≠ []) (tagless : '<' ∉ value.toList)
    (edge : ∀ c ∈ rest.head?, c = '<') :
    readToken? (value.toList ++ rest) = some (.text value, rest) := by
  obtain ⟨c, cs, split⟩ := List.exists_cons_of_ne_nil full
  rw [split] at tagless
  obtain ⟨first, later⟩ := not_or.mp (mt List.mem_cons.mpr tagless)
  obtain ⟨front, back⟩ := @span_exact (· ≠ '<') cs rest
    (fun c member => decide_eq_true (ne_of_mem_of_not_mem member later)) (fun c head => by simp [edge c head])
  rw [split, List.cons_append, readToken?, front, back, ← split, String.ofList_toList]
  · intro after opens
    exact absurd opens.symm first
  · intro opens
    exact absurd opens.symm first

/-! ### The tags and texts of nodes -/

mutual
/-- The tags and texts that a node is written with. -/
def Node.tokens (keepBlank : Bool) : Node → List MarkupToken
  | .element head children =>
    if Tag.isVoid head.tag then [.start head.tag head.writtenAttrs]
    else .start head.tag head.writtenAttrs :: tokensAll keepBlank children ++ [.stop head.tag]
  | .text value => if !keepBlank && Text.allBlank value then [] else [.text value]
def tokensAll (keepBlank : Bool) : List Node → List MarkupToken
  | [] => []
  | node :: rest => node.tokens keepBlank ++ tokensAll keepBlank rest
end

def Node.isText : Node → Bool
  | .element _ _ => false
  | .text _ => true

/-- Whether a list of nodes begins with a text. -/
def opensWithText : List Node → Bool
  | [] => false
  | node :: _ => node.isText

mutual
/-- Names are names of markup, texts are not empty and without tags, and void elements have no children. -/
def Node.isWritable : Node → Bool
  | .element head children =>
    isMarkupName head.tag && head.attrs.keys.all isMarkupName && (!Tag.isVoid head.tag || children.isEmpty)
      && areWritable children
  | .text value => !value.toList.isEmpty && !value.toList.contains '<'
/-- All of them are, and no text stands next to another. -/
def areWritable : List Node → Bool
  | [] => true
  | node :: rest => node.isWritable && !(node.isText && opensWithText rest) && areWritable rest
end

theorem Head.names_writtenAttrs {h : Head} (legal : h.attrs.keys.all isMarkupName = true) :
    ∀ attr ∈ h.writtenAttrs, isMarkupName attr.1 = true := by
  have keys : ∀ name ∈ h.attrs.keys, isMarkupName name = true := List.all_eq_true.mp legal
  intro attr member
  rw [writtenAttrs] at member
  split at member
  · exact keys attr.1 (List.mem_map_of_mem member)
  · have name := List.mem_map_of_mem (f := Prod.fst) member
    rw [OrderedMap.insert, OrderedMap.keys_insertEntry] at name
    split at name
    · exact keys attr.1 name
    · rcases List.mem_append.mp name with old | new
      · exact keys attr.1 old
      · rw [List.mem_singleton.mp new]
        decide +kernel

/-- A text is followed by a tag or by nothing. -/
theorem edge_nodesMarkup {nodes : List Node} {rest : List Char} (apart : opensWithText nodes = false)
    (edge : ∀ c ∈ rest.head?, c = '<') :
    ∀ c ∈ ((nodesMarkup keepBlank nodes).toList ++ rest).head?, c = '<' := by
  cases nodes with
  | nil => simpa [nodesMarkup] using edge
  | cons node more =>
    cases node with
    | text value => cases apart
    | element head children =>
      rw [nodesMarkup, Node.markup]
      split <;> simp

mutual
theorem markupTokens?_markup (keepBlank : Bool) (node : Node) (rest : List Char) (writable : node.isWritable = true)
    (edge : node.isText = true → ∀ c ∈ rest.head?, c = '<') :
    markupTokens? ((node.markup keepBlank).toList ++ rest) = (markupTokens? rest).map (node.tokens keepBlank ++ ·) := by
  cases node with
  | text value =>
    rw [Node.isWritable, Bool.and_eq_true, Bool.not_eq_true', Bool.not_eq_true'] at writable
    rw [Node.markup, textMarkup, Node.tokens]
    split
    · simp
    · have full : value.toList ≠ [] := by simpa using writable.1
      have tagless : '<' ∉ value.toList := by simpa using writable.2
      rw [markupTokens?_step (readToken?_text full tagless (edge rfl))]
      rfl
  | element head children =>
    rw [Node.isWritable, Bool.and_eq_true, Bool.and_eq_true, Bool.and_eq_true] at writable
    obtain ⟨⟨⟨legal, keys⟩, -⟩, inner⟩ := writable
    have names := Head.names_writtenAttrs keys
    have start (after : List Char) := markupTokens?_step (readToken?_start after legal names)
    rw [Node.markup, Node.tokens]
    split
    · exact start rest
    · have split : ("<" ++ head.tag ++ head.attrsMarkup ++ ">" ++ nodesMarkup keepBlank children ++ "</" ++ head.tag
            ++ ">").toList ++ rest =
          ("<" ++ head.tag ++ attrsText head.writtenAttrs ++ ">").toList ++
            ((nodesMarkup keepBlank children).toList ++ (("</" ++ head.tag ++ ">").toList ++ rest)) := by
        simp [Head.attrsMarkup, attrsText]
      rw [split, start, markupTokens?_nodesMarkup keepBlank children _ inner (by simp),
        markupTokens?_step (readToken?_stop rest legal), Option.map_map, Option.map_map]
      refine congrArg (Option.map · (markupTokens? rest)) (funext fun tokens => ?_)
      simp
/-- Markup is read as the tags and texts that it was written with. -/
theorem markupTokens?_nodesMarkup (keepBlank : Bool) (nodes : List Node) (rest : List Char)
    (writable : areWritable nodes = true) (edge : ∀ c ∈ rest.head?, c = '<') :
    markupTokens? ((nodesMarkup keepBlank nodes).toList ++ rest) =
      (markupTokens? rest).map (tokensAll keepBlank nodes ++ ·) := by
  cases nodes with
  | nil => simp [nodesMarkup, tokensAll]
  | cons node more =>
    rw [areWritable, Bool.and_eq_true, Bool.and_eq_true, Bool.not_eq_true', Bool.and_eq_false_imp] at writable
    obtain ⟨⟨first, apart⟩, later⟩ := writable
    rw [nodesMarkup, String.toList_append, List.append_assoc,
      markupTokens?_markup keepBlank node _ first fun text => edge_nodesMarkup (apart text) edge,
      markupTokens?_nodesMarkup keepBlank more rest later edge, Option.map_map, tokensAll]
    simp [Function.comp_def]
end

end

/-! ### The trees -/

namespace Head

/-- The attributes that are read back: `id` has the value by which the element is found. It stands where a static id
    stood, or last. -/
def shownAttrs (h : Head) : List (String × String) :=
  match h.elementId? with
  | none => h.attrs.entries
  | some id =>
    if h.attrs.contains "id" then h.attrs.entries.map fun attr => if attr.1 = "id" then ("id", id) else attr
    else h.attrs.entries ++ [("id", id)]

theorem writtenAttrs_eq_shownAttrs (h : Head) : h.writtenAttrs = h.shownAttrs := by
  have placed (id : String) : OrderedMap.insertEntry "id" id h.attrs.entries =
      if h.attrs.contains "id" then h.attrs.entries.map fun attr => if attr.1 = "id" then ("id", id) else attr
      else h.attrs.entries ++ [("id", id)] := by
    split
    · rename_i given
      exact OrderedMap.insertEntry_of_mem h.attrs.nodup (OrderedMap.contains_iff.mp given) id
    · rename_i absent
      exact OrderedMap.insertEntry_of_notMem (mt OrderedMap.contains_iff.mpr absent) id
  rw [writtenAttrs, shownAttrs, elementId?]
  rcases h.infoId? with _ | id
  · rw [Option.none_or]
    rcases given : h.attrs.get? "id" with _ | id
    · rfl
    · exact (OrderedMap.insertEntry_of_lookup given).symm.trans (placed id)
  · exact placed id

end Head

mutual
/-- What is read back of a node: its metadata is forgotten, and a blank text is gone unless it is to be kept. -/
def Node.shown (keepBlank : Bool) : Node → List Tree
  | .element head children => [.element head.tag head.shownAttrs (shownAll keepBlank children)]
  | .text value => if !keepBlank && Text.allBlank value then [] else [.text value]
def shownAll (keepBlank : Bool) : List Node → List Tree
  | [] => []
  | node :: rest => node.shown keepBlank ++ shownAll keepBlank rest
end

mutual
theorem buildTrees_tokens (keepBlank : Bool) (node : Node) (opened : List OpenElement) (read : List Tree)
    (rest : List MarkupToken) (writable : node.isWritable = true) :
    buildTrees opened read (node.tokens keepBlank ++ rest) = buildTrees opened (read ++ node.shown keepBlank) rest := by
  cases node with
  | text value =>
    rw [Node.tokens, Node.shown]
    split
    · rw [List.nil_append, List.append_nil]
    · rw [List.singleton_append, buildTrees]
  | element head children =>
    rw [Node.isWritable, Bool.and_eq_true, Bool.and_eq_true, Bool.or_eq_true, Bool.not_eq_true'] at writable
    obtain ⟨⟨_, content⟩, inner⟩ := writable
    rw [Node.tokens, Node.shown]
    split
    · rename_i void
      obtain rfl : children = [] := by simpa [void] using content
      rw [List.singleton_append, buildTrees, if_pos void, Head.writtenAttrs_eq_shownAttrs, shownAll]
    · rename_i full
      rw [List.cons_append, List.cons_append, buildTrees, if_neg full, List.append_assoc,
        buildTrees_tokensAll keepBlank children _ _ _ inner, List.nil_append, List.singleton_append, buildTrees,
        if_pos rfl, Head.writtenAttrs_eq_shownAttrs]
/-- The tags and texts of nodes make the nodes again. -/
theorem buildTrees_tokensAll (keepBlank : Bool) (nodes : List Node) (opened : List OpenElement) (read : List Tree)
    (rest : List MarkupToken) (writable : areWritable nodes = true) :
    buildTrees opened read (tokensAll keepBlank nodes ++ rest) =
      buildTrees opened (read ++ shownAll keepBlank nodes) rest := by
  cases nodes with
  | nil => rw [tokensAll, shownAll, List.nil_append, List.append_nil]
  | cons node more =>
    rw [areWritable, Bool.and_eq_true, Bool.and_eq_true] at writable
    rw [tokensAll, shownAll, List.append_assoc, buildTrees_tokens keepBlank node _ _ _ writable.1.1,
      buildTrees_tokensAll keepBlank more _ _ _ writable.2, List.append_assoc]
end

/-- Markup is read back as the nodes that it was written from. -/
theorem readMarkup_nodesMarkup (keepBlank : Bool) (nodes : List Node) (writable : areWritable nodes = true) :
    readMarkup? (nodesMarkup keepBlank nodes) = some (shownAll keepBlank nodes) := by
  have tokens := markupTokens?_nodesMarkup keepBlank nodes [] writable (by simp)
  have trees := buildTrees_tokensAll keepBlank nodes [] [] [] writable
  rw [List.append_nil] at tokens trees
  have ends : markupTokens? [] = some [] := by rw [markupTokens?]; rfl
  rw [readMarkup?, tokens, ends, Option.map_some, Option.bind_some, List.append_nil, trees, buildTrees, List.nil_append]

/-- A line break in capitals and a paragraph with an image in it. The metadata gives the paragraph and the image an id,
    in place of a static one and at the end. -/
def pictured : List Node :=
  [.element { tag := "BR" } [], .text " ",
    .element { tag := "p", attrs := .ofList [("id", "a"), ("title", "\"&quot; <&amp;")],
               info := some { elementId := some "b" } }
      [.text "A > B",
       .element { tag := "img", attrs := .ofList [("alt", "")], info := some { elementId := some "c" } } []]]

theorem readMarkup_nodesMarkup_pictured :
    areWritable pictured = true ∧
      readMarkup? (nodesMarkup false pictured) =
        some [.element "BR" [] [],
          .element "p" [("id", "b"), ("title", "\"&quot; <&amp;")]
            [.text "A > B", .element "img" [("alt", ""), ("id", "c")] []]] :=
  ⟨by decide +kernel, readMarkup_nodesMarkup false pictured (by decide +kernel)⟩

end TemplateWeaver
