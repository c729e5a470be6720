import CodeMarkup.Proofs.Schema.Consistency

namespace CodeMarkup

/-!
# The registry of a compiled schema

A document may declare one attribute many times, for itself and in its elements.  The compiler keeps
the first declaration and lets every element that declares the attribute refer to it.  Nothing here
asks where the tree comes from: if it compiles at all, its registry is in order.

* `Tree.declaredAttributes`: the declarations of a document, in the order in which they stand there.
* `Records`: a registry of the first declarations among some.  One more declaration keeps it so
  (`Tree.register_records`), and hence a whole document does (`Tree.compileElements_records`).
* `AreIndices`: elements refer to attributes by indices, which stay right while the registry grows.
* `Tree.compileSchema_registry`: names and tags of a compiled schema are different, elements share
  the attributes of the registry, and those are as they were first declared.
-/

theorem bind_eq_ok {ε α β : Type} {x : Except ε α} {f : α → Except ε β} {b : β}
    (h : x >>= f = .ok b) : ∃ a, x = .ok a ∧ f a = .ok b := by
  cases x with
  | error error => cases h
  | ok a => exact ⟨a, rfl, h⟩

/-- What holds after each number of items holds after all of them. -/
theorem foldlM_eq_ok {ε α β : Type} {step : β → α → Except ε β} (I : List α → β → Prop)
    {items : List α} {b last : β}
    (hstep : ∀ done a b next, I done b → step b a = .ok next → I (done ++ [a]) next)
    (hstart : I [] b) (h : items.foldlM step b = .ok last) : I items last := by
  have hfrom : ∀ left done b, I done b → left.foldlM step b = .ok last →
      I (done ++ left) last := by
    intro left
    induction left with
    | nil =>
      intro done b hdone h
      cases h
      rwa [List.append_nil]
    | cons a left ih =>
      intro done b hdone h
      rw [List.foldlM_cons] at h
      obtain ⟨next, hnext, h⟩ := bind_eq_ok h
      rw [List.append_cons]
      exact ih _ next (hstep done a b next hdone hnext) h
  exact hfrom items [] b hstart h

/-! ### Declarations -/

/-- All declarations of attributes in a document with the expressions of their types: those for all
    elements, then those of one element after another. -/
def Tree.declaredAttributes (tree : Tree) (id : NodeId) : List (String × NodeId) :=
  tree.pairsOf id "attributes"
    ++ (tree.definitionsOf id).flatMap fun definition => tree.pairsOf definition "attributes"

/-- An attribute that is what a declaration says. -/
structure SchemaAttribute.IsReadFrom (tree : Tree) (attr : SchemaAttribute)
    (declaration : String × NodeId) : Prop where
  name_eq : attr.name = declaration.1
  type_eq : tree.valueTypeOf declaration.2 = .ok attr.type
  isRequired_eq :
    attr.isRequired = (tree.attributeString? declaration.2 "required").any Tree.isTrueText
  defaultValue_eq : attr.defaultValue = tree.attributeValue? declaration.2 "default"
  source_eq : attr.source = declaration.2

/-- A registry of the first declarations of all names among some declarations. -/
structure Records (tree : Tree) (registry : List SchemaAttribute)
    (declared : List (String × NodeId)) : Prop where
  names_eq : registry.map (·.name) = (declared.map (·.1)).eraseDups
  first : ∀ attr ∈ registry, ∃ declaration,
    declared.find? (·.1 == attr.name) = some declaration ∧ attr.IsReadFrom tree declaration

/-- Indices of the attributes with some names. -/
def AreIndices (registry : List SchemaAttribute) (indices : List Nat) (names : List String) :
    Prop :=
  indices.map some = names.map (Schema.indexOf? registry)

section Registry

variable {tree : Tree} {registry more : List SchemaAttribute} {attr incoming : SchemaAttribute}
  {declared : List (String × NodeId)} {declaration : String × NodeId} {indices : List Nat}
  {names : List String} {name : String} {index : Nat}

theorem indexOf?_eq_some (h : Schema.indexOf? registry name = some index) :
    ∃ attr, registry[index]? = some attr ∧ attr.name = name := by
  obtain ⟨hlt, hname, -⟩ := List.findIdx?_eq_some_iff_getElem.1 h
  exact ⟨registry[index], List.getElem?_eq_getElem hlt, eq_of_beq hname⟩

theorem indexOf?_eq_none_iff :
    Schema.indexOf? registry name = none ↔ name ∉ registry.map (·.name) := by
  simp [Schema.indexOf?]

theorem indexOf?_append (h : Schema.indexOf? registry name = some index) :
    Schema.indexOf? (registry ++ more) name = some index := by
  unfold Schema.indexOf? at h ⊢
  rw [List.findIdx?_append, h, Option.some_or]

/-- The attribute of a name is the first with that name. -/
theorem find?_of_indexOf? (h : Schema.indexOf? registry name = some index)
    (hget : registry[index]? = some attr) : registry.find? (·.name == name) = some attr := by
  obtain ⟨hlt, hname, hbefore⟩ := List.findIdx?_eq_some_iff_getElem.1 h
  obtain ⟨_, rfl⟩ := List.getElem?_eq_some_iff.1 hget
  rw [List.find?_eq_some_iff_getElem]
  exact ⟨hname, index, hlt, rfl, fun other hother => by simpa using hbefore other hother⟩

namespace AreIndices

theorem append_registry (h : AreIndices registry indices names) :
    AreIndices (registry ++ more) indices names := by
  unfold AreIndices at h ⊢
  rw [h]
  apply List.map_congr_left
  intro name hname
  have hmem : Schema.indexOf? registry name ∈ indices.map some := h ▸ List.mem_map_of_mem hname
  obtain ⟨index, _, hindex⟩ := List.mem_map.1 hmem
  rw [← hindex, indexOf?_append hindex.symm]

theorem concat (h : AreIndices registry indices names)
    (hindex : Schema.indexOf? registry name = some index) :
    AreIndices registry (indices ++ [index]) (names ++ [name]) := by
  unfold AreIndices at h ⊢
  rw [List.map_append, List.map_append, h, List.map_singleton, List.map_singleton, hindex]

/-- What an index stands for is the attribute of its own name. -/
theorem exists_attribute (h : AreIndices registry indices names) (hindex : index ∈ indices) :
    ∃ attr, registry[index]? = some attr ∧ Schema.indexOf? registry attr.name = some index := by
  have hmem : some index ∈ names.map (Schema.indexOf? registry) := h ▸ List.mem_map_of_mem hindex
  obtain ⟨name, _, hname⟩ := List.mem_map.1 hmem
  obtain ⟨attr, hget, rfl⟩ := indexOf?_eq_some hname
  exact ⟨attr, hget, hname⟩

theorem names_eq (h : AreIndices registry indices names) :
    (indices.filterMap (registry[·]?)).map (·.name) = names := by
  unfold AreIndices at h
  induction names generalizing indices with
  | nil =>
    rw [List.map_eq_nil_iff.1 h]
    rfl
  | cons name names ih =>
    cases indices with
    | nil => cases h
    | cons index indices =>
      rw [List.map_cons, List.map_cons, List.cons.injEq] at h
      obtain ⟨attr, hget, hname⟩ := indexOf?_eq_some h.1.symm
      rw [List.filterMap_cons_some hget, List.map_cons, hname, ih h.2]

end AreIndices

namespace Records

theorem nil : Records tree [] [] :=
  ⟨rfl, nofun⟩

theorem mem_names_iff (h : Records tree registry declared) :
    name ∈ registry.map (·.name) ↔ name ∈ declared.map (·.1) := by
  rw [h.names_eq, List.mem_eraseDups]

/-- Later declarations do not come first. -/
theorem first_append (h : Records tree registry declared) (hattr : attr ∈ registry)
    (others : List (String × NodeId)) :
    ∃ declaration, (declared ++ others).find? (·.1 == attr.name) = some declaration
      ∧ attr.IsReadFrom tree declaration := by
  obtain ⟨declaration, hfind, hread⟩ := h.first attr hattr
  refine ⟨declaration, ?_, hread⟩
  rw [List.find?_append, hfind, Option.some_or]

/-- The first declaration of a name is added. -/
theorem concat_new (h : Records tree registry declared)
    (hread : incoming.IsReadFrom tree declaration)
    (hnew : incoming.name ∉ registry.map (·.name)) :
    Records tree (registry ++ [incoming]) (declared ++ [declaration]) := by
  have hnotin : incoming.name ∉ declared.map (·.1) := fun hmem => hnew (h.mem_names_iff.2 hmem)
  constructor
  · rw [List.map_append, List.map_append, List.eraseDups_append, ← h.names_eq,
      List.map_singleton, List.map_singleton, ← hread.name_eq]
    simp [List.removeAll, hnotin, List.eraseDups_cons]
  · intro attr hattr
    rw [List.mem_append, List.mem_singleton] at hattr
    rcases hattr with hattr | rfl
    · exact h.first_append hattr _
    · refine ⟨declaration, ?_, hread⟩
      have hnone : declared.find? (·.1 == attr.name) = none := by
        rw [List.find?_eq_none]
        intro other hother heq
        exact hnotin (eq_of_beq heq ▸ List.mem_map_of_mem hother)
      rw [List.find?_append, hnone, Option.none_or, hread.name_eq]
      simp

/-- A name that is there is not added again. -/
theorem concat_known (h : Records tree registry declared)
    (hknown : declaration.1 ∈ registry.map (·.name)) :
    Records tree registry (declared ++ [declaration]) := by
  constructor
  · rw [List.map_append, List.eraseDups_append, ← h.names_eq, List.map_singleton]
    simp [List.removeAll, h.mem_names_iff.1 hknown]
  · intro attr hattr
    exact h.first_append hattr _

end Records

end Registry

/-! ### Entries of an object -/

/-- What is known after some declarations: the registry has grown, it records them after those
    before, and the indices are theirs. -/
structure Registered.Follows (tree : Tree) (found : Registered) (registry : List SchemaAttribute)
    (declared done : List (String × NodeId)) : Prop where
  grows : ∃ more, found.registry = registry ++ more
  records : Records tree found.registry (declared ++ done)
  indices : AreIndices found.registry found.indices (done.map (·.1))

namespace Tree

variable {tree : Tree} {id : NodeId} {registry : List SchemaAttribute} {found next : Registered}
  {incoming : SchemaAttribute} {declared done : List (String × NodeId)}
  {declaration : String × NodeId}

/-- **One more declaration.**  A new name is added at the end of the registry, and a name that is
    there stays as it is. -/
theorem register_records {context : String} {entry : NodeId}
    (hfound : found.Follows tree registry declared done)
    (hread : incoming.IsReadFrom tree declaration)
    (h : tree.register found incoming context entry = .ok next) :
    next.Follows tree registry declared (done ++ [declaration]) := by
  obtain ⟨⟨more, hgrows⟩, hrecords, hindices⟩ := hfound
  unfold register at h
  dsimp only at h
  split at h
  · next hindex =>
    cases h
    have hnew := indexOf?_eq_none_iff.1 hindex
    have hlast : Schema.indexOf? (found.registry ++ [incoming]) incoming.name
        = some found.registry.length := by
      unfold Schema.indexOf? at hindex ⊢
      rw [List.findIdx?_append, hindex]
      simp
    refine ⟨⟨more ++ [incoming], by rw [hgrows, List.append_assoc]⟩, ?_, ?_⟩
    · rw [← List.append_assoc]
      exact hrecords.concat_new hread hnew
    · rw [List.map_append, List.map_singleton, ← hread.name_eq]
      exact hindices.append_registry.concat hlast
  · next index hindex =>
    have hknown : incoming.name ∈ found.registry.map (·.name) := by
      by_contra hnew
      rw [indexOf?_eq_none_iff.2 hnew] at hindex
      cases hindex
    split at h
    · cases h
    · cases h
      refine ⟨⟨more, hgrows⟩, ?_, ?_⟩
      · rw [← List.append_assoc]
        exact hrecords.concat_known (hread.name_eq ▸ hknown)
      · rw [List.map_append, List.map_singleton, ← hread.name_eq]
        exact hindices.concat hindex

theorem compileAttribute_isReadFrom {attr : SchemaAttribute} {name : String} {value : NodeId}
    (h : tree.compileAttribute name value = .ok attr) : attr.IsReadFrom tree (name, value) := by
  obtain ⟨type, htype, h⟩ := bind_eq_ok h
  split at h
  · cases h
  · cases h
    refine ⟨rfl, htype, ?_, ?_, rfl⟩
    -- what is no tag has no attributes at all
    · cases htag : tree.tagName? value with
      | none => simp [attributeString?, attribute?_eq_none htag]
      | some tag => simp
    · cases htag : tree.tagName? value with
      | none => simp [attributeValue?, attribute?_eq_none htag]
      | some tag => simp

theorem pair?_of_entryParts {entry : NodeId} (h : tree.entryParts entry = .ok declaration) :
    tree.pair? entry = some declaration := by
  unfold entryParts at h
  split at h
  · next key value hkey hvalue =>
    cases h
    rw [pair?, hkey, hvalue]
    rfl
  · cases h

/-- **All entries of an object,** one after another. -/
theorem registerAll_records {context : String → String} {entries : List NodeId}
    (hrecords : Records tree registry declared)
    (h : tree.registerAll registry context entries = .ok found) :
    found.Follows tree registry declared (entries.filterMap tree.pair?) := by
  have hstart : Registered.Follows tree ⟨registry, []⟩ registry declared [] :=
    ⟨⟨[], (List.append_nil _).symm⟩, (List.append_nil declared).symm ▸ hrecords, rfl⟩
  apply foldlM_eq_ok (fun done (found : Registered) =>
    found.Follows tree registry declared (done.filterMap tree.pair?)) ?_ hstart h
  intro done entry found next hfound hnext
  obtain ⟨⟨name, value⟩, hparts, hnext⟩ := bind_eq_ok hnext
  obtain ⟨incoming, hincoming, hnext⟩ := bind_eq_ok hnext
  have hpair := pair?_of_entryParts hparts
  rw [List.filterMap_append, List.filterMap_cons_some hpair]
  exact register_records hfound (compileAttribute_isReadFrom hincoming) hnext

theorem objectEntries_ok {name context : String} {entries : List NodeId}
    (h : tree.objectEntries id name context = .ok entries) : entries = tree.entriesOf id name := by
  unfold objectEntries at h
  unfold entriesOf
  split at h
  · next hnone =>
    cases h
    rw [attributeValue?, hnone]
    rfl
  · split at h
    · cases h
    · next value hvalue =>
      rw [hvalue]
      split at h
      · cases h
        rfl
      · cases h

theorem arrayValues_ok {tag name : String} {values : List NodeId}
    (h : tree.arrayValues id tag name = .ok values) :
    values = ((tree.attributeValue? id name).bind tree.jsonValues?).getD [] := by
  unfold arrayValues at h
  split at h
  · cases h
  · split at h
    · cases h
    · next value hvalue =>
      rw [hvalue]
      split at h
      · cases h
        rfl
      · cases h

end Tree

/-! ### Elements -/

/-- An element that refers to the attributes of its definition, in order. -/
def SchemaElement.Refers (tree : Tree) (registry : List SchemaAttribute)
    (element : SchemaElement) : Prop :=
  AreIndices registry element.attributes ((tree.pairsOf element.source "attributes").map (·.1))

namespace Tree

variable {tree : Tree} {id : NodeId} {registry later : List SchemaAttribute}
  {declared : List (String × NodeId)}

theorem compileElement_records {element : SchemaElement}
    (hrecords : Records tree registry declared)
    (h : tree.compileElement registry id = .ok (later, element)) :
    (∃ more, later = registry ++ more)
      ∧ Records tree later (declared ++ tree.pairsOf id "attributes")
      ∧ element.source = id ∧ element.Refers tree later := by
  unfold compileElement at h
  obtain ⟨tag, _, h⟩ := bind_eq_ok h
  obtain ⟨entries, hentries, h⟩ := bind_eq_ok h
  obtain ⟨found, hfound, h⟩ := bind_eq_ok h
  obtain ⟨_, _, h⟩ := bind_eq_ok h
  obtain ⟨children, _, h⟩ := bind_eq_ok h
  rw [objectEntries_ok hentries] at hfound
  have hfollows := registerAll_records hrecords hfound
  dsimp only at h
  split at h
  · cases h
  · split at h
    · cases h
    · cases h
    · cases h
      exact ⟨hfollows.grows, hfollows.records, rfl, hfollows.indices⟩

/-- **All elements,** one after another.  The first of them refer to attributes whose indices the
    later ones do not change. -/
theorem compileElements_records {nodes : List NodeId} {elements : List SchemaElement}
    (hrecords : Records tree registry declared)
    (h : tree.compileElements registry nodes = .ok (later, elements)) :
    (∃ more, later = registry ++ more)
      ∧ Records tree later
        (declared ++ (tree.definitionsIn nodes).flatMap fun id => tree.pairsOf id "attributes")
      ∧ elements.map (·.source) = tree.definitionsIn nodes
      ∧ ∀ element ∈ elements, element.Refers tree later := by
  induction nodes generalizing registry declared elements with
  | nil =>
    cases h
    refine ⟨⟨[], (List.append_nil _).symm⟩, ?_, rfl, nofun⟩
    simpa [definitionsIn] using hrecords
  | cons id nodes ih =>
    unfold compileElements at h
    by_cases htag : tree.tagName? id == some elementDef
    · have hdefinitions : tree.definitionsIn (id :: nodes) = id :: tree.definitionsIn nodes :=
        List.filter_cons_of_pos htag
      rw [if_pos htag] at h
      obtain ⟨⟨middle, element⟩, helement, h⟩ := bind_eq_ok h
      obtain ⟨⟨last, others⟩, hothers, h⟩ := bind_eq_ok h
      cases h
      obtain ⟨⟨more, hmiddle⟩, hrecords, hsource, hrefers⟩ :=
        compileElement_records hrecords helement
      obtain ⟨⟨rest, hlater⟩, hrecords, hsources, hothers⟩ := ih hrecords hothers
      rw [hdefinitions, List.flatMap_cons, ← List.append_assoc]
      refine ⟨⟨more ++ rest, ?_⟩, hrecords, ?_, ?_⟩
      · rw [hlater, hmiddle, List.append_assoc]
      · rw [List.map_cons, hsource, hsources]
      · rw [List.forall_mem_cons]
        exact ⟨hlater ▸ hrefers.append_registry, hothers⟩
    -- other nodes are passed over
    · have hdefinitions : tree.definitionsIn (id :: nodes) = tree.definitionsIn nodes :=
        List.filter_cons_of_neg htag
      rw [if_neg htag] at h
      rw [hdefinitions]
      exact ih hrecords h

/-! ### Documents -/

theorem checkSchema_ok {schema checked : Schema} (h : tree.checkSchema schema = .ok checked) :
    checked = schema ∧ (schema.attributes.map (·.name)).Nodup
      ∧ (schema.elements.map (·.tag)).Nodup ∧ schema.rootElement?.isSome = true := by
  unfold checkSchema at h
  split at h
  · cases h
  · next hnames =>
    split at h
    · cases h
    · next htags =>
      split at h
      · next hroot =>
        cases h
        exact ⟨rfl, firstRepeat?_eq_none.1 hnames, repeatedElement?_eq_none.1 htags, hroot⟩
      · cases h

/-- **Registries of compiled schemas.**  In a document that compiles, names of attributes and tags
    of elements are different and the root element is there.  The elements are those that the
    document defines, and each refers to the attributes that it declares, which are the registry's
    own.  The registry lists names in the order in which they first occur, and each attribute is
    what the first declaration of its name says. -/
theorem compileSchema_registry (tree : Tree) (id : NodeId) (schema : Schema)
    (h : tree.compileSchema id = .ok schema) :
    (schema.attributes.map (·.name)).Nodup ∧ (schema.elements.map (·.tag)).Nodup
      ∧ schema.rootElement?.isSome = true
      ∧ schema.elements.map (·.source) = tree.definitionsOf id
      ∧ (∀ element ∈ schema.elements,
        (schema.attributesOf element).map (·.name)
            = (tree.pairsOf element.source "attributes").map (·.1)
          ∧ ∀ index ∈ element.attributes, ∃ attr, schema.attributes[index]? = some attr
            ∧ Schema.indexOf? schema.attributes attr.name = some index
            ∧ schema.attribute? attr.name = some attr)
      ∧ schema.attributes.map (·.name) = ((tree.declaredAttributes id).map (·.1)).eraseDups
      ∧ ∀ attr ∈ schema.attributes, ∃ declaration,
        (tree.declaredAttributes id).find? (·.1 == attr.name) = some declaration
          ∧ attr.IsReadFrom tree declaration := by
  unfold compileSchema at h
  obtain ⟨tag, _, h⟩ := bind_eq_ok h
  obtain ⟨entries, hentries, h⟩ := bind_eq_ok h
  obtain ⟨shared, hshared, h⟩ := bind_eq_ok h
  obtain ⟨definitions, hdefinitions, h⟩ := bind_eq_ok h
  obtain ⟨⟨registry, elements⟩, helements, h⟩ := bind_eq_ok h
  obtain ⟨rfl, hnames, htags, hroot⟩ := checkSchema_ok h
  rw [objectEntries_ok hentries] at hshared
  have hstart := (registerAll_records Records.nil hshared).records
  obtain ⟨-, hrecords, hsources, hrefers⟩ := compileElements_records hstart helements
  rw [arrayValues_ok hdefinitions, ← definitionsOf] at hrecords hsources
  refine ⟨hnames, htags, hroot, hsources, ?_, hrecords.names_eq, hrecords.first⟩
  intro element helement
  have hindices := hrefers element helement
  refine ⟨hindices.names_eq, fun index hindex => ?_⟩
  obtain ⟨attr, hget, hname⟩ := hindices.exists_attribute hindex
  exact ⟨attr, hget, hname, find?_of_indexOf? hname hget⟩

/-- A document that declares `a` for all elements, and `b` and `a` in each of two elements. -/
def sharedDocument : Source :=
  .ofText ("<d attributes=\x7ba:int\x7d elements=[<element-def name=root attributes=\x7bb:int,"
    ++ "a:<int/>\x7d/>,<element-def name=box attributes=\x7ba:int,b:<int/>\x7d/>]/>")

/-- Its two elements share both attributes, each in its own order. -/
theorem compileSchema_registry_shared :
    ∃ tree schema, sharedDocument.parse .tag = .ok tree
      ∧ tree.compileSchema tree.root = .ok schema
      ∧ schema.elements.map (·.attributes) = [[1, 0], [0, 1]]
      ∧ schema.attributes.map (·.name) = ["a", "b"]
      ∧ ∀ attr ∈ schema.attributes, ∃ declaration,
        (tree.declaredAttributes tree.root).find? (·.1 == attr.name) = some declaration
          ∧ attr.IsReadFrom tree declaration := by
  obtain ⟨tree, hparse, hcompiles⟩ : ∃ tree, sharedDocument.parse .tag = .ok tree
      ∧ ((tree.compileSchema tree.root).toOption.map fun schema =>
          schema.elements.map (·.attributes)) = some [[1, 0], [0, 1]]
      ∧ ((tree.declaredAttributes tree.root).map (·.1)).eraseDups = ["a", "b"] :=
    Source.exists_eq_ok_and (by decide +kernel)
  cases hschema : tree.compileSchema tree.root with
  | error error =>
    rw [hschema] at hcompiles
    cases hcompiles.1
  | ok schema =>
    rw [hschema] at hcompiles
    obtain ⟨-, -, -, -, -, hnames, hfirst⟩ := compileSchema_registry tree tree.root schema hschema
    refine ⟨tree, schema, hparse, hschema, Option.some.inj hcompiles.1, ?_, ?_⟩
    · rw [hnames, hcompiles.2]
    · exact hfirst

end Tree

end CodeMarkup
