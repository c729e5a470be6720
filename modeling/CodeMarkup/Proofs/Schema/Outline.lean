import CodeMarkup.Proofs.Spans
import CodeMarkup.Schema.Compile

namespace CodeMarkup

/-!
# Outlines of definition documents

What a definition document declares, read off its tree without regard to any order of compilation.

* `Trait`: what two declarations of one attribute have to agree on.
* `SchemaOutline`: the root tag of a document, the attributes it declares for all elements, and for
  each element its name and the attributes declared there.
* `SchemaOutline.IsConsistent`: no name is given to two elements, the root tag is one of the names,
  and declarations of one attribute agree.  The order of the declarations does not matter
  (`SchemaOutline.IsConsistent.perm`).
* `Tree.IsWellFormed`: every part of a document, taken by itself, has the right form.
* `Tree.IsParsed.pairs_of_object`: entries of a json object of a parsed tree are pairs with
  different keys.
-/

/-- What two declarations of one attribute have to agree on. -/
structure Trait where
  /-- Whether the attribute has to be present. -/
  isRequired : Bool
  /-- Whether it has a default value. -/
  hasDefault : Bool
  /-- The outermost form of its type, if it has a type. -/
  category : Option String
  deriving DecidableEq

/-- No two declarations of one attribute disagree. -/
def AreCompatible (declared : List (String × Trait)) : Prop :=
  ∀ a ∈ declared, ∀ b ∈ declared, a.1 = b.1 → a.2 = b.2

instance (declared : List (String × Trait)) : Decidable (AreCompatible declared) :=
  inferInstanceAs (Decidable (∀ a ∈ declared, ∀ b ∈ declared, a.1 = b.1 → a.2 = b.2))

/-- What a definition document declares. -/
structure SchemaOutline where
  /-- The tag of the element that documents start with. -/
  rootTag : String
  /-- The attributes declared for all elements. -/
  shared : List (String × Trait)
  /-- The elements, each with its name and the attributes declared for it. -/
  elements : List (String × List (String × Trait))
  deriving DecidableEq

namespace SchemaOutline

/-- The names of the elements. -/
def names (outline : SchemaOutline) : List String :=
  outline.elements.map (·.1)

/-- All declarations of attributes. -/
def declarations (outline : SchemaOutline) : List (String × Trait) :=
  outline.shared ++ outline.elements.flatMap (·.2)

/-- A document whose parts fit together. -/
structure IsConsistent (outline : SchemaOutline) : Prop where
  names_nodup : outline.names.Nodup
  rootTag_mem : outline.rootTag ∈ outline.names
  compatible : AreCompatible outline.declarations

instance (outline : SchemaOutline) : Decidable outline.IsConsistent :=
  decidable_of_iff (outline.names.Nodup ∧ outline.rootTag ∈ outline.names
      ∧ AreCompatible outline.declarations)
    ⟨fun ⟨nodup, mem, compatible⟩ => ⟨nodup, mem, compatible⟩,
      fun h => ⟨h.names_nodup, h.rootTag_mem, h.compatible⟩⟩

/-- Whether the parts of a document fit together does not depend on their order. -/
theorem IsConsistent.perm {a b : SchemaOutline} (h : a.IsConsistent) (hroot : a.rootTag = b.rootTag)
    (hshared : a.shared.Perm b.shared) (helements : a.elements.Perm b.elements) :
    b.IsConsistent := by
  have hnames : a.names.Perm b.names := helements.map _
  have hdeclarations : a.declarations.Perm b.declarations :=
    hshared.append (helements.flatMap_right _)
  refine ⟨hnames.nodup_iff.1 h.names_nodup, ?_, ?_⟩
  · rw [← hroot]
    exact hnames.mem_iff.1 h.rootTag_mem
  · intro x hx y hy hname
    exact h.compatible x (hdeclarations.mem_iff.2 hx) y (hdeclarations.mem_iff.2 hy) hname

end SchemaOutline

namespace Tree

variable {source : Source} {body : List Token} {tree : Tree} {id : NodeId} {name : String}

/-! ### Reading an outline -/

/-- The key and the value of an entry of a json object. -/
def pair? (tree : Tree) (entry : NodeId) : Option (String × NodeId) := do
  return (← tree.jsonKey? entry, ← tree.jsonEntryValue? entry)

/-- The entries of the json container that an attribute holds, if it holds one. -/
def entriesOf (tree : Tree) (id : NodeId) (name : String) : List NodeId :=
  ((tree.attributeValue? id name).bind tree.jsonEntries?).getD []

/-- The keys and values of the json object that an attribute holds. -/
def pairsOf (tree : Tree) (id : NodeId) (name : String) : List (String × NodeId) :=
  (tree.entriesOf id name).filterMap tree.pair?

/-- What the expression of a type says about the attribute that it stands for. -/
def traitOf (tree : Tree) (value : NodeId) : Trait where
  isRequired := (tree.attributeString? value "required").any isTrueText
  hasDefault := (tree.attributeValue? value "default").isSome
  category := (tree.valueTypeOf value).toOption.map ValueType.category

/-- The declarations that entries of a json object make. -/
def declarationsIn (tree : Tree) (entries : List NodeId) : List (String × Trait) :=
  (entries.filterMap tree.pair?).map fun pair => (pair.1, tree.traitOf pair.2)

/-- The declarations that the attribute `attributes` of a tag holds. -/
def declarationsOf (tree : Tree) (id : NodeId) : List (String × Trait) :=
  tree.declarationsIn (tree.entriesOf id "attributes")

/-- The definitions of elements among some nodes. -/
def definitionsIn (tree : Tree) (nodes : List NodeId) : List NodeId :=
  nodes.filter (tree.tagName? · == some elementDef)

/-- The definitions of elements in the attribute `elements` of a tag. -/
def definitionsOf (tree : Tree) (id : NodeId) : List NodeId :=
  tree.definitionsIn (((tree.attributeValue? id "elements").bind tree.jsonValues?).getD [])

/-- The name that a definition gives to its element. -/
def definedName (tree : Tree) (definition : NodeId) : String :=
  (tree.attributeString? definition "name").getD ""

/-- What a tag declares as a definition document. -/
def schemaOutline (tree : Tree) (id : NodeId) : SchemaOutline where
  rootTag := (tree.attributeString? id "rootTag").getD "root"
  shared := tree.declarationsOf id
  elements := (tree.definitionsOf id).map fun definition =>
    (tree.definedName definition, tree.declarationsOf definition)

/-! ### Well-formed parts -/

/-- An attribute that is absent or holds a json object. -/
def HoldsObject (tree : Tree) (id : NodeId) (name : String) : Prop :=
  tree.attribute? id name = none ∨ (tree.attributeValue? id name).any tree.isJsonObject = true

/-- A tag whose `attributes`, if present, are a json object of types under non-empty names. -/
structure DeclaresTypes (tree : Tree) (id : NodeId) : Prop where
  object : tree.HoldsObject id "attributes"
  keys : ∀ pair ∈ tree.pairsOf id "attributes", pair.1 ≠ ""
  types : ∀ pair ∈ tree.pairsOf id "attributes", (tree.valueTypeOf pair.2).isOk = true

/-- A definition of an element with a name, with types of attributes and with types of children. -/
structure IsDefinition (tree : Tree) (id : NodeId) : Prop extends tree.DeclaresTypes id where
  name : ∃ name ∈ tree.attributeString? id "name", name ≠ ""
  children : tree.HoldsObject id "elements"
  childTypes : ∀ pair ∈ tree.pairsOf id "elements", (tree.valueTypeOf pair.2).isOk = true

/-- A tag whose parts, each by itself, are those of a definition document. -/
structure IsWellFormed (tree : Tree) (id : NodeId) : Prop extends tree.DeclaresTypes id where
  isTag : (tree.tagName? id).isSome = true
  elements : (tree.attributeValue? id "elements").any tree.isJsonArray = true
  definitions : ∀ definition ∈ tree.definitionsOf id, tree.IsDefinition definition

instance : Decidable (tree.HoldsObject id name) :=
  inferInstanceAs (Decidable (_ ∨ _))

instance : Decidable (tree.DeclaresTypes id) :=
  decidable_of_iff (tree.HoldsObject id "attributes"
      ∧ (∀ pair ∈ tree.pairsOf id "attributes", pair.1 ≠ "")
      ∧ ∀ pair ∈ tree.pairsOf id "attributes", (tree.valueTypeOf pair.2).isOk = true)
    ⟨fun ⟨object, keys, types⟩ => ⟨object, keys, types⟩, fun h => ⟨h.object, h.keys, h.types⟩⟩

instance : Decidable (tree.IsDefinition id) :=
  decidable_of_iff (tree.DeclaresTypes id
      ∧ (∃ name ∈ tree.attributeString? id "name", name ≠ "")
      ∧ tree.HoldsObject id "elements"
      ∧ ∀ pair ∈ tree.pairsOf id "elements", (tree.valueTypeOf pair.2).isOk = true)
    ⟨fun ⟨declares, name, children, types⟩ => ⟨declares, name, children, types⟩,
      fun h => ⟨h.toDeclaresTypes, h.name, h.children, h.childTypes⟩⟩

instance : Decidable (tree.IsWellFormed id) :=
  decidable_of_iff (tree.DeclaresTypes id ∧ (tree.tagName? id).isSome = true
      ∧ (tree.attributeValue? id "elements").any tree.isJsonArray = true
      ∧ ∀ definition ∈ tree.definitionsOf id, tree.IsDefinition definition)
    ⟨fun ⟨declares, isTag, elements, definitions⟩ => ⟨declares, isTag, elements, definitions⟩,
      fun h => ⟨h.toDeclaresTypes, h.isTag, h.elements, h.definitions⟩⟩

/-! ### Keys of a parsed tree -/

theorem stringValue?_of_keyText {text : String} (h : (tree.kind id).keyText? = some text) :
    tree.stringValue? id = some text := by
  rw [stringValue?]
  unfold NodeKind.keyText? at h
  split at h <;> simp_all

theorem exists_kind_of_keyIn {entry : NodeId} {text : String}
    (h : keyIn tree.nodes entry = some text) :
    ∃ key value, tree.kind entry = .jsonEntry (some key) value := by
  unfold keyIn at h
  split at h
  · next key value hentry => exact ⟨key, value, hentry⟩
  · cases h

/-- The key of an entry is read back as the text that the parser has compared. -/
theorem jsonKey?_eq_keyIn {entry : NodeId} (h : keyIn tree.nodes entry ≠ none) :
    tree.jsonKey? entry = keyIn tree.nodes entry := by
  obtain ⟨text, htext⟩ := Option.ne_none_iff_exists'.1 h
  obtain ⟨key, value, hkind⟩ := exists_kind_of_keyIn htext
  rw [htext, jsonKey?, hkind]
  rw [keyIn_eq hkind] at htext
  exact stringValue?_of_keyText htext

theorem pair?_eq_some {entry : NodeId} {text : String} (h : keyIn tree.nodes entry = some text) :
    ∃ value, tree.pair? entry = some (text, value) := by
  obtain ⟨key, value, hkind⟩ := exists_kind_of_keyIn h
  refine ⟨value, ?_⟩
  rw [pair?, jsonKey?_eq_keyIn (by simp [h]), h, jsonEntryValue?, hkind]
  rfl

/-- The keys of entries that are pairs, all of them. -/
theorem map_keys_eq {entries : List NodeId} (h : ∀ entry ∈ entries, keyIn tree.nodes entry ≠ none) :
    ((entries.filterMap tree.pair?).map (·.1)).map some = entries.map (keyIn tree.nodes) := by
  induction entries with
  | nil => rfl
  | cons entry entries ih =>
    obtain ⟨key, hkey⟩ := Option.ne_none_iff_exists'.1 (h entry (List.mem_cons_self ..))
    obtain ⟨value, hpair⟩ := pair?_eq_some hkey
    have hrest := ih fun other hother => h other (List.mem_cons_of_mem _ hother)
    rw [List.filterMap_cons_some hpair, List.map_cons, List.map_cons, List.map_cons, hrest, hkey]

/-- **Objects have different keys.**  The parser refuses an object with a key that was there
    before, and an entry without a key. -/
theorem IsParsed.pairs_of_object (h : tree.IsParsed source body)
    (hobject : tree.isJsonObject id = true) :
    (∀ entry ∈ (tree.jsonEntries? id).getD [], ∃ pair, tree.pair? entry = some pair)
      ∧ ((((tree.jsonEntries? id).getD []).filterMap tree.pair?).map (·.1)).Nodup := by
  obtain ⟨entries, hkind⟩ : ∃ entries, tree.kind id = .json false entries := by
    unfold isJsonObject at hobject
    split at hobject
    · next isArray entries hkind =>
      cases isArray with
      | false => exact ⟨entries, hkind⟩
      | true => cases hobject
    · cases hobject
  have hid : id < tree.size := by
    rcases Nat.lt_or_ge id tree.size with hlt | hge
    · exact hlt
    -- past the last node a blank is read, which is no object
    · rw [kind, node, node?, Array.getElem?_eq_none hge] at hkind
      cases hkind
  obtain ⟨hkeys, hnodup⟩ := (h.isSound hid).keyed hkind
  have hentries : (tree.jsonEntries? id).getD [] = entries := by
    rw [jsonEntries?, hkind]
    rfl
  rw [hentries]
  refine ⟨fun entry hentry => ?_, ?_⟩
  · obtain ⟨key, hkey⟩ := Option.ne_none_iff_exists'.1 (hkeys entry hentry)
    obtain ⟨value, hpair⟩ := pair?_eq_some hkey
    exact ⟨(key, value), hpair⟩
  · rw [← map_keys_eq hkeys] at hnodup
    exact List.Pairwise.of_map some (fun _ _ hne heq => hne (congrArg some heq)) hnodup

/-- The same for the object that an attribute holds. -/
theorem IsParsed.pairsOf (h : tree.IsParsed source body) (hobject : tree.HoldsObject id name) :
    (∀ entry ∈ tree.entriesOf id name, ∃ pair, tree.pair? entry = some pair)
      ∧ ((tree.pairsOf id name).map (·.1)).Nodup := by
  unfold Tree.pairsOf entriesOf
  cases hvalue : tree.attributeValue? id name with
  | none => exact ⟨nofun, List.nodup_nil⟩
  | some value =>
    rcases hobject with hnone | hobject
    · rw [attributeValue?, hnone] at hvalue
      cases hvalue
    · rw [hvalue] at hobject
      exact h.pairs_of_object hobject

end Tree

end CodeMarkup
