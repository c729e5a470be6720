import CodeMarkup.Proofs.Schema.Outline
import Mathlib.Data.List.Nodup

namespace CodeMarkup

/-!
# When a definition document compiles

The compiler goes through a document once.  It compares each declaration of an attribute with the
first one of that name, which the registry holds, and looks for repeated names and for the root tag
at the end.  Here this is shown to find exactly the documents whose parts fit together, in whatever
order they stand.

* `Settles`: a computation succeeds exactly if a condition holds; `Settles.bind` is the rule for
  sequences.
* `Registers`: what the registry knows of the declarations so far.  A declaration agrees with all
  before it if it agrees with the one in the registry (`register_settles`).
* `Source.compileSchema_iff_consistent`: a document with well-formed parts compiles exactly if they
  fit together, and so regardless of their order.
-/

/-! ### Computations that may fail -/

/-- A computation that succeeds exactly if `P` holds, with a result of which `Q` holds. -/
def Settles {ε α : Type} (x : Except ε α) (P : Prop) (Q : α → Prop) : Prop :=
  match x with
  | .ok a => P ∧ Q a
  | .error _ => ¬P

theorem ok_bind {ε α β : Type} (a : α) (f : α → Except ε β) :
    (Except.ok a >>= f) = f a :=
  rfl

namespace Settles

variable {ε α β : Type} {x : Except ε α} {f : α → Except ε β} {P R : Prop} {Q : α → Prop}
  {S : β → Prop}

/-- **Sequences.**  The condition for the whole includes that for the first part, after which it is
    settled by the second. -/
theorem bind (hx : Settles x P Q) (hPR : R → P) (hf : ∀ a, P → Q a → Settles (f a) R S) :
    Settles (x >>= f) R S := by
  cases x with
  | error error => exact fun hR => hx (hPR hR)
  | ok a => exact hf a hx.1 hx.2

/-- **Loops.**  `P` is the condition for a number of items, and `I` holds after them. -/
theorem foldlM {step : β → α → Except ε β} (P : List α → Prop) (I : List α → β → Prop)
    {items : List α} {b : β} (hP : ∀ front more, P (front ++ more) → P front)
    (hstep : ∀ done a b, a ∈ items → I done b →
      Settles (step b a) (P (done ++ [a])) (I (done ++ [a])))
    (hnil : P []) (h : I [] b) : Settles (items.foldlM step b) (P items) (I items) := by
  -- the items left, after those that are done
  have hfrom : ∀ left done b, (∀ a ∈ left, a ∈ items) → P done → I done b →
      Settles (left.foldlM step b) (P (done ++ left)) (I (done ++ left)) := by
    intro left
    induction left with
    | nil =>
      intro done b _ hdone h
      rw [List.append_nil]
      exact ⟨hdone, h⟩
    | cons a left ih =>
      intro done b hmem hdone h
      rw [List.foldlM_cons, List.append_cons done a left]
      have hround := hstep done a b (hmem a (List.mem_cons_self ..)) h
      refine hround.bind (hP _ _) fun next hnext hI => ?_
      exact ih _ next (fun other hother => hmem other (List.mem_cons_of_mem _ hother)) hnext hI
  exact hfrom items [] b (fun _ hmem => hmem) hnil h

theorem congr (hx : Settles x P Q) (h : P ↔ R) : Settles x R Q := by
  cases x with
  | error error => exact fun hR => hx (h.2 hR)
  | ok a => exact ⟨h.1 hx.1, hx.2⟩

theorem exists_ok_iff (hx : Settles x P Q) : (∃ a, x = .ok a) ↔ P := by
  cases x with
  | error error => exact ⟨nofun, fun hP => absurd hP hx⟩
  | ok a => exact ⟨fun _ => hx.1, fun _ => ⟨a, rfl⟩⟩

end Settles

/-! ### Repeated names -/

theorem firstRepeat?_eq_none_iff (seen names : List String) :
    firstRepeat? seen names = none ↔ names.Nodup ∧ ∀ name ∈ names, name ∉ seen := by
  induction names generalizing seen with
  | nil => simp [firstRepeat?]
  | cons name names ih =>
    by_cases hseen : name ∈ seen
    · simp [firstRepeat?, hseen]
    · simp only [firstRepeat?, List.contains_iff_mem, hseen, if_false, ih, List.nodup_cons,
        List.mem_append, List.mem_singleton, List.forall_mem_cons]
      grind

theorem firstRepeat?_eq_none {names : List String} :
    firstRepeat? [] names = none ↔ names.Nodup := by
  simp [firstRepeat?_eq_none_iff]

namespace Tree

theorem repeatedElement?_map_tag (seen : List String) (elements : List SchemaElement) :
    (repeatedElement? seen elements).map (·.tag) = firstRepeat? seen (elements.map (·.tag)) := by
  induction elements generalizing seen with
  | nil => rfl
  | cons element elements ih =>
    unfold repeatedElement?
    rw [List.map_cons, firstRepeat?]
    split
    · rfl
    · exact ih _

theorem repeatedElement?_eq_none {elements : List SchemaElement} :
    repeatedElement? [] elements = none ↔ (elements.map (·.tag)).Nodup := by
  rw [← firstRepeat?_eq_none, ← repeatedElement?_map_tag, Option.map_eq_none_iff]

end Tree

/-! ### The registry -/

/-- What two declarations of an attribute have to agree on. -/
def SchemaAttribute.trait (attr : SchemaAttribute) : Trait :=
  ⟨attr.isRequired, attr.defaultValue.isSome, some attr.type.category⟩

/-- An attribute as a declaration. -/
def SchemaAttribute.declaration (attr : SchemaAttribute) : String × Trait :=
  (attr.name, attr.trait)

/-- A registry for some declarations: it holds each of them, and each name once. -/
structure Registers (registry : List SchemaAttribute) (declared : List (String × Trait)) :
    Prop where
  mem_iff : ∀ declaration, declaration ∈ registry.map (·.declaration) ↔ declaration ∈ declared
  names_nodup : (registry.map (·.name)).Nodup

/-- A registry with the names of the attributes just defined, by their indices in it. -/
structure Registered.Holds (found : Registered) (declared : List (String × Trait))
    (names : List String) : Prop extends Registers found.registry declared where
  names_eq : found.indices.map (fun index => (found.registry[index]?).map (·.name))
    = names.map some

section Registry

variable {tree : Tree} {registry : List SchemaAttribute} {declared more : List (String × Trait)}
  {declaration : String × Trait} {found : Registered} {existing incoming : SchemaAttribute}
  {context : String} {names : List String}

theorem AreCompatible.left (h : AreCompatible (declared ++ more)) : AreCompatible declared :=
  fun a ha b hb => h a (List.mem_append_left _ ha) b (List.mem_append_left _ hb)

/-- One more declaration has to agree with those before it. -/
theorem AreCompatible.concat_iff (h : AreCompatible declared) :
    AreCompatible (declared ++ [declaration])
      ↔ ∀ a ∈ declared, a.1 = declaration.1 → a.2 = declaration.2 := by
  constructor
  · intro hall a ha hname
    exact hall a (List.mem_append_left _ ha) declaration (by simp) hname
  · intro hlast a ha b hb hname
    rw [List.mem_append, List.mem_singleton] at ha hb
    rcases ha with ha | rfl
    · rcases hb with hb | rfl
      · exact h a ha b hb hname
      · exact hlast a ha hname
    · rcases hb with hb | rfl
      · exact (hlast b hb hname.symm).symm
      · rfl

namespace Registers

theorem nil : Registers [] [] :=
  ⟨fun _ => Iff.rfl, List.nodup_nil⟩

/-- A declaration is known by the attribute of its name. -/
theorem eq_of_name (h : Registers registry declared) (hmem : existing ∈ registry)
    (hdeclared : declaration ∈ declared) (hname : existing.name = declaration.1) :
    existing.declaration = declaration := by
  obtain ⟨attr, hattr, rfl⟩ := List.mem_map.1 ((h.mem_iff declaration).2 hdeclared)
  have hsame : existing = attr := List.inj_on_of_nodup_map h.names_nodup hmem hattr hname
  rw [hsame]

theorem areCompatible (h : Registers registry declared) : AreCompatible declared := by
  intro a ha b hb hname
  obtain ⟨attr, hattr, rfl⟩ := List.mem_map.1 ((h.mem_iff a).2 ha)
  rw [h.eq_of_name hattr hb hname]

/-- An attribute with a new name agrees with all declarations. -/
theorem concat_of_new (h : Registers registry declared)
    (hnew : ∀ attr ∈ registry, attr.name ≠ incoming.name) :
    AreCompatible (declared ++ [incoming.declaration])
      ∧ Registers (registry ++ [incoming]) (declared ++ [incoming.declaration]) := by
  refine ⟨h.areCompatible.concat_iff.2 ?_, ?_, ?_⟩
  · intro a ha hname
    obtain ⟨attr, hattr, rfl⟩ := List.mem_map.1 ((h.mem_iff a).2 ha)
    exact absurd hname (hnew attr hattr)
  · intro declaration
    rw [List.map_append, List.mem_append, List.mem_append, h.mem_iff]
    rfl
  · rw [List.map_append, List.nodup_append]
    refine ⟨h.names_nodup, List.nodup_singleton _, ?_⟩
    intro name hname last hlast heq
    obtain ⟨attr, hattr, rfl⟩ := List.mem_map.1 hname
    exact hnew attr hattr (heq.trans (List.mem_singleton.1 hlast))

/-- An attribute whose name is there agrees with all declarations if it agrees with that one. -/
theorem concat_iff_of_mem (h : Registers registry declared) (hmem : existing ∈ registry)
    (hname : existing.name = incoming.name) :
    AreCompatible (declared ++ [incoming.declaration]) ↔ existing.trait = incoming.trait := by
  have hdeclared := (h.mem_iff _).1 (List.mem_map_of_mem hmem)
  rw [h.areCompatible.concat_iff]
  constructor
  · intro hall
    exact hall existing.declaration hdeclared hname
  · intro htrait a ha hname'
    rw [← h.eq_of_name hmem ha (hname.trans hname'.symm)]
    exact htrait

/-- What is declared again is in the registry already. -/
theorem concat_of_mem (h : Registers registry declared) (hmem : existing ∈ registry)
    (hname : existing.name = incoming.name) (htrait : existing.trait = incoming.trait) :
    Registers registry (declared ++ [incoming.declaration]) := by
  have hsame : existing.declaration = incoming.declaration := Prod.ext hname htrait
  have hdeclared := (h.mem_iff _).1 (List.mem_map_of_mem hmem)
  refine ⟨fun declaration => ?_, h.names_nodup⟩
  rw [h.mem_iff, List.mem_append, List.mem_singleton, ← hsame]
  exact ⟨Or.inl, fun hor => hor.elim id fun heq => heq ▸ hdeclared⟩

end Registers

namespace Tree

theorem conflict?_eq_none_iff :
    conflict? existing incoming context = none ↔ existing.trait = incoming.trait := by
  unfold conflict? SchemaAttribute.trait
  by_cases hrequired : existing.isRequired = incoming.isRequired
  · by_cases hdefault : existing.defaultValue.isSome = incoming.defaultValue.isSome
    · by_cases hcategory : existing.type.category = incoming.type.category
      · simp [hrequired, hdefault, hcategory]
      · simp [hrequired, hdefault, hcategory]
    · simp [hrequired, hdefault]
  · simp [hrequired]

end Tree

/-- Attributes keep their indices while others are added. -/
theorem Registered.Holds.names_stable (h : found.Holds declared names)
    (others : List SchemaAttribute) :
    found.indices.map (fun index => ((found.registry ++ others)[index]?).map (·.name))
      = names.map some := by
  rw [← h.names_eq]
  refine List.map_congr_left fun index hindex => ?_
  have hlt : index < found.registry.length := by
    have hmem : (found.registry[index]?).map (·.name) ∈ names.map some :=
      h.names_eq ▸ List.mem_map_of_mem hindex
    obtain ⟨name, _, hname⟩ := List.mem_map.1 hmem
    by_contra hge
    rw [List.getElem?_eq_none (Nat.not_lt.1 hge)] at hname
    cases hname
  rw [List.getElem?_append_left hlt]

theorem Registered.Holds.filterMap_eq (h : found.Holds declared names) :
    found.indices.filterMap (fun index => (found.registry[index]?).map (·.name)) = names := by
  have hmap := congrArg (List.filterMap id) h.names_eq
  rwa [List.filterMap_map, List.filterMap_map, Function.id_comp, Function.id_comp,
    List.filterMap_some] at hmap

/-- **One more declaration.**  It is compared with the attribute of its name in the registry, which
    stands for all declarations of that name. -/
theorem Tree.register_settles {entry : NodeId} (h : found.Holds declared names) :
    Settles (tree.register found incoming context entry)
      (AreCompatible (declared ++ [incoming.declaration])) fun next =>
        next.Holds (declared ++ [incoming.declaration]) (names ++ [incoming.name]) := by
  unfold Tree.register
  dsimp only
  split
  · next hindex =>
    have hnew : ∀ attr ∈ found.registry, attr.name ≠ incoming.name := by
      simpa [Schema.indexOf?] using hindex
    obtain ⟨hcompatible, hregisters⟩ := h.toRegisters.concat_of_new hnew
    refine ⟨hcompatible, hregisters, ?_⟩
    rw [List.map_append, List.map_append, h.names_stable]
    simp
  · next index hindex =>
    obtain ⟨hlt, hname, _⟩ := List.findIdx?_eq_some_iff_getElem.1 hindex
    have hget := List.getElem?_eq_getElem hlt
    generalize found.registry[index] = existing at hname hget
    have hmem := List.mem_of_getElem? hget
    have hname : existing.name = incoming.name := eq_of_beq hname
    have hiff := h.toRegisters.concat_iff_of_mem hmem hname
    rw [hget, Option.bind_some]
    split
    · next fault hconflict =>
      -- a fault says that the two disagree
      intro hcompatible
      rw [conflict?_eq_none_iff.2 (hiff.1 hcompatible)] at hconflict
      cases hconflict
    · next hconflict =>
      have htrait := conflict?_eq_none_iff.1 hconflict
      refine ⟨hiff.2 htrait, h.toRegisters.concat_of_mem hmem hname htrait, ?_⟩
      rw [List.map_append, List.map_append, h.names_eq]
      simp [hget, hname]

end Registry

/-! ### Entries of an object -/

namespace Tree

variable {source : Source} {body : List Token} {tree : Tree} {id : NodeId} {name tag : String}
  {declared : List (String × Trait)} {registry : List SchemaAttribute} {context : String → String}

theorem entryParts_eq {entry : NodeId} {pair : String × NodeId}
    (h : tree.pair? entry = some pair) : tree.entryParts entry = .ok pair := by
  obtain ⟨key, hkey, h⟩ := Option.bind_eq_some_iff.1 h
  obtain ⟨value, hvalue, h⟩ := Option.bind_eq_some_iff.1 h
  cases h
  rw [entryParts, hkey, hvalue]

/-- Only tags have attributes. -/
theorem attribute?_eq_none (h : tree.tagName? id = none) (name : String) :
    tree.attribute? id name = none := by
  unfold tagName? at h
  unfold attribute?
  split at h
  · cases h
  · rfl

/-- A named type is an attribute, with the traits that the expression of the type gives it. -/
theorem compileAttribute_eq {key : String} {value : NodeId} (hkey : key ≠ "")
    (htype : (tree.valueTypeOf value).isOk = true) :
    ∃ attr, tree.compileAttribute key value = .ok attr
      ∧ attr.declaration = (key, tree.traitOf value) := by
  obtain ⟨type, htype⟩ := Source.exists_eq_ok htype
  have hempty : key.isEmpty = false := by simpa using hkey
  unfold compileAttribute traitOf
  rw [htype, ok_bind, if_neg (by simp [hempty])]
  refine ⟨_, rfl, ?_⟩
  cases htag : tree.tagName? value with
  | none =>
    have hnone := attribute?_eq_none htag
    simp [SchemaAttribute.declaration, SchemaAttribute.trait, attributeString?, attributeValue?,
      hnone, Except.toOption]
  | some tag =>
    simp [SchemaAttribute.declaration, SchemaAttribute.trait, Except.toOption]

/-- Entries of an object that declare attributes. -/
theorem registerAll_settles {entries : List NodeId}
    (hpairs : ∀ entry ∈ entries, ∃ pair, tree.pair? entry = some pair)
    (hkeys : ∀ pair ∈ entries.filterMap tree.pair?, pair.1 ≠ "")
    (htypes : ∀ pair ∈ entries.filterMap tree.pair?, (tree.valueTypeOf pair.2).isOk = true)
    (h : Registers registry declared) :
    Settles (tree.registerAll registry context entries)
      (AreCompatible (declared ++ tree.declarationsIn entries)) fun found =>
        found.Holds (declared ++ tree.declarationsIn entries)
          ((entries.filterMap tree.pair?).map (·.1)) := by
  have hempty : declared ++ tree.declarationsIn [] = declared := List.append_nil _
  have hstart : Registered.Holds ⟨registry, []⟩ (declared ++ tree.declarationsIn []) [] :=
    ⟨hempty.symm ▸ h, rfl⟩
  refine Settles.foldlM (fun done => AreCompatible (declared ++ tree.declarationsIn done))
    (fun done (found : Registered) => found.Holds (declared ++ tree.declarationsIn done)
      ((done.filterMap tree.pair?).map (·.1))) ?_ ?_ (hempty.symm ▸ h.areCompatible) hstart
  · intro front more hall
    rw [declarationsIn, List.filterMap_append, List.map_append, ← List.append_assoc] at hall
    exact hall.left
  · intro done entry found hentry hfound
    obtain ⟨⟨key, value⟩, hpair⟩ := hpairs entry hentry
    have hmem : (key, value) ∈ entries.filterMap tree.pair? :=
      List.mem_filterMap.2 ⟨entry, hentry, hpair⟩
    obtain ⟨attr, hattr, hdeclaration⟩ := compileAttribute_eq (hkeys _ hmem) (htypes _ hmem)
    have hname : attr.name = key := congrArg Prod.fst hdeclaration
    have hnext : Settles (tree.register found attr (context key) entry) _ _ :=
      register_settles hfound
    rw [hdeclaration, hname] at hnext
    rw [entryParts_eq hpair, ok_bind]
    dsimp only
    rw [hattr, ok_bind]
    simpa [declarationsIn, List.filterMap_append, List.filterMap_cons_some hpair] using hnext

/-! ### Elements -/

theorem requiredString_eq (h : ∃ text ∈ tree.attributeString? id name, text ≠ "") :
    tree.requiredString id tag name = .ok ((tree.attributeString? id name).getD "") := by
  obtain ⟨text, htext, hne⟩ := h
  rw [Option.mem_def] at htext
  have hempty : text.isEmpty = false := by simpa using hne
  unfold requiredString
  split
  · next hnone =>
    rw [attributeString?, hnone] at htext
    cases htext
  · rw [htext]
    simp [hempty]

theorem objectEntries_eq {context : String} (h : tree.HoldsObject id name) :
    tree.objectEntries id name context = .ok (tree.entriesOf id name) := by
  unfold objectEntries entriesOf
  split
  · next hnone =>
    rw [attributeValue?, hnone]
    rfl
  · next attr hattr =>
    rcases h with hnone | hobject
    · rw [hattr] at hnone
      cases hnone
    · cases hvalue : tree.attributeValue? id name with
      | none =>
        rw [hvalue] at hobject
        cases hobject
      | some value =>
        rw [hvalue] at hobject
        have hobject : tree.isJsonObject value = true := hobject
        simp [hobject]

/-- The children of an element, by their tags. -/
theorem children_eq {entries : List NodeId}
    (hpairs : ∀ entry ∈ entries, ∃ pair, tree.pair? entry = some pair)
    (htypes : ∀ pair ∈ entries.filterMap tree.pair?, (tree.valueTypeOf pair.2).isOk = true) :
    ∃ children, (entries.mapM fun entry => do
        let (child, value) ← tree.entryParts entry
        return (child, ← tree.valueTypeOf value)) = .ok children
      ∧ children.map (·.1) = (entries.filterMap tree.pair?).map (·.1) := by
  induction entries with
  | nil => exact ⟨[], rfl, rfl⟩
  | cons entry entries ih =>
    obtain ⟨⟨key, value⟩, hpair⟩ := hpairs entry (List.mem_cons_self ..)
    rw [List.filterMap_cons_some hpair] at htypes ⊢
    obtain ⟨type, htype⟩ := Source.exists_eq_ok (htypes (key, value) (List.mem_cons_self ..))
    obtain ⟨children, hchildren, hkeys⟩ := ih
      (fun other hother => hpairs other (List.mem_cons_of_mem _ hother))
      (fun pair hmem => htypes pair (List.mem_cons_of_mem _ hmem))
    refine ⟨(key, type) :: children, ?_, by rw [List.map_cons, List.map_cons, hkeys]⟩
    have htype : tree.valueTypeOf value = .ok type := htype
    rw [List.mapM_cons, hchildren, entryParts_eq hpair, ok_bind]
    dsimp only
    rw [htype]
    rfl

/-- **One element.**  Its own keys are different, so that only its attributes can be at fault. -/
theorem compileElement_settles (hparsed : tree.IsParsed source body) (hid : tree.IsDefinition id)
    (h : Registers registry declared) :
    Settles (tree.compileElement registry id)
      (AreCompatible (declared ++ tree.declarationsOf id)) fun result =>
        Registers result.1 (declared ++ tree.declarationsOf id)
          ∧ result.2.tag = tree.definedName id := by
  obtain ⟨hpairs, hkeys⟩ := hparsed.pairsOf hid.object
  obtain ⟨hchildPairs, hchildKeys⟩ := hparsed.pairsOf hid.children
  obtain ⟨children, hchildren, htags⟩ := children_eq hchildPairs hid.childTypes
  obtain ⟨name, hname, hne⟩ := hid.name
  have hdefined : tree.definedName id = name := by
    rw [definedName, Option.mem_def.1 hname]
    rfl
  have hempty : name.isEmpty = false := by simpa using hne
  unfold compileElement
  rw [requiredString_eq hid.name, ok_bind, ← definedName, hdefined,
    objectEntries_eq hid.object, ok_bind]
  refine (registerAll_settles hpairs hid.keys hid.types h).bind (fun hall => hall)
    fun found hagree hfound => ?_
  rw [objectEntries_eq hid.children, ok_bind, hchildren, ok_bind]
  have hattributes := firstRepeat?_eq_none.2 hkeys
  have htags := firstRepeat?_eq_none.2 (htags ▸ hchildKeys)
  rw [hfound.filterMap_eq, ← pairsOf]
  dsimp only
  rw [hattributes, htags, if_neg (by simp [hempty])]
  exact ⟨hagree, hfound.toRegisters, rfl⟩

/-- **All elements,** one after another. -/
theorem compileElements_settles (hparsed : tree.IsParsed source body) (nodes : List NodeId)
    (hnodes : ∀ definition ∈ tree.definitionsIn nodes, tree.IsDefinition definition)
    (h : Registers registry declared) :
    Settles (tree.compileElements registry nodes)
      (AreCompatible (declared ++ (tree.definitionsIn nodes).flatMap tree.declarationsOf))
      fun result =>
        Registers result.1 (declared ++ (tree.definitionsIn nodes).flatMap tree.declarationsOf)
          ∧ result.2.map (·.tag) = (tree.definitionsIn nodes).map tree.definedName := by
  induction nodes generalizing registry declared with
  | nil =>
    have hnone : declared ++ (tree.definitionsIn []).flatMap tree.declarationsOf = declared :=
      List.append_nil _
    rw [hnone]
    exact ⟨h.areCompatible, h, rfl⟩
  | cons id nodes ih =>
    unfold compileElements
    by_cases htag : tree.tagName? id == some elementDef
    · have hdefinitions : tree.definitionsIn (id :: nodes) = id :: tree.definitionsIn nodes :=
        List.filter_cons_of_pos htag
      rw [hdefinitions] at hnodes ⊢
      rw [if_pos htag, List.flatMap_cons, ← List.append_assoc]
      have hfirst := compileElement_settles hparsed (hnodes id (List.mem_cons_self ..)) h
      refine hfirst.bind AreCompatible.left fun ⟨registry, element⟩ _ ⟨hregistry, hname⟩ => ?_
      have hrest := ih (fun other hother => hnodes other (List.mem_cons_of_mem _ hother)) hregistry
      refine hrest.bind (fun hall => hall) fun ⟨registry, others⟩ hall ⟨hregistry, hnames⟩ => ?_
      refine ⟨hall, hregistry, ?_⟩
      rw [List.map_cons, List.map_cons, hname, hnames]
    -- other nodes are passed over
    · have hdefinitions : tree.definitionsIn (id :: nodes) = tree.definitionsIn nodes :=
        List.filter_cons_of_neg htag
      rw [hdefinitions] at hnodes ⊢
      rw [if_neg htag]
      exact ih hnodes h

/-! ### Documents -/

theorem rootElement?_isSome {schema : Schema} :
    schema.rootElement?.isSome = true ↔ schema.rootTag ∈ schema.elements.map (·.tag) := by
  rw [Schema.rootElement?, Schema.element?, List.find?_isSome, List.mem_map]
  simp

/-- What is left to check at the end. -/
theorem checkSchema_settles {schema : Schema} (h : (schema.attributes.map (·.name)).Nodup) :
    Settles (tree.checkSchema schema)
      ((schema.elements.map (·.tag)).Nodup ∧ schema.rootTag ∈ schema.elements.map (·.tag))
      fun _ => True := by
  unfold checkSchema
  rw [firstRepeat?_eq_none.2 h]
  dsimp only
  split
  · next element helement =>
    rintro ⟨hnodup, _⟩
    rw [repeatedElement?_eq_none.2 hnodup] at helement
    cases helement
  · next hnone =>
    by_cases hroot : schema.rootElement?.isSome
    · rw [if_pos hroot]
      exact ⟨⟨repeatedElement?_eq_none.1 hnone, rootElement?_isSome.1 hroot⟩, trivial⟩
    · rw [if_neg hroot]
      exact fun ⟨_, hmem⟩ => hroot (rootElement?_isSome.2 hmem)

theorem arrayValues_eq (h : (tree.attributeValue? id name).any tree.isJsonArray = true) :
    tree.arrayValues id tag name
      = .ok (((tree.attributeValue? id name).bind tree.jsonValues?).getD []) := by
  cases hvalue : tree.attributeValue? id name with
  | none =>
    rw [hvalue] at h
    cases h
  | some value =>
    rw [hvalue] at h
    have harray : tree.isJsonArray value = true := h
    unfold arrayValues
    split
    · next hnone =>
      rw [attributeValue?, hnone] at hvalue
      cases hvalue
    · simp [hvalue, harray]

theorem schemaOutline_names :
    (tree.schemaOutline id).names = (tree.definitionsOf id).map tree.definedName := by
  simp [schemaOutline, SchemaOutline.names]

theorem schemaOutline_declarations : (tree.schemaOutline id).declarations
    = tree.declarationsOf id ++ (tree.definitionsOf id).flatMap tree.declarationsOf := by
  simp [schemaOutline, SchemaOutline.declarations, List.flatMap_map]

/-- **A whole document.** -/
theorem compileSchema_settles (hparsed : tree.IsParsed source body) (hid : tree.IsWellFormed id) :
    Settles (tree.compileSchema id) (tree.schemaOutline id).IsConsistent fun _ => True := by
  obtain ⟨tag, htag⟩ := Option.isSome_iff_exists.1 hid.isTag
  obtain ⟨hpairs, -⟩ := hparsed.pairsOf hid.object
  have hdefinition : tree.definitionTag id = .ok tag := by rw [definitionTag, htag]
  -- the declarations of the elements come after those of the document
  have hall : (tree.schemaOutline id).IsConsistent → AreCompatible (tree.declarationsOf id
      ++ (tree.definitionsOf id).flatMap tree.declarationsOf) :=
    fun hconsistent => schemaOutline_declarations ▸ hconsistent.compatible
  unfold compileSchema
  rw [hdefinition, ok_bind, objectEntries_eq hid.object, ok_bind]
  refine (registerAll_settles hpairs hid.keys hid.types .nil).bind
    (fun hconsistent => (hall hconsistent).left) fun shared _ hshared => ?_
  rw [arrayValues_eq hid.elements, ok_bind]
  refine (compileElements_settles hparsed _ hid.definitions hshared.toRegisters).bind hall
    fun ⟨registry, elements⟩ hagree ⟨hregistry, hnames⟩ => ?_
  refine (checkSchema_settles hregistry.names_nodup).congr ?_
  have hnames : elements.map (·.tag) = (tree.schemaOutline id).names :=
    hnames.trans schemaOutline_names.symm
  dsimp only
  rw [hnames]
  constructor
  · rintro ⟨hnodup, hroot⟩
    exact ⟨hnodup, hroot, schemaOutline_declarations.symm ▸ hagree⟩
  · intro hconsistent
    exact ⟨hconsistent.names_nodup, hconsistent.rootTag_mem⟩

end Tree

/-- **When a document compiles.**  A tag of a parsed tree whose parts are well-formed compiles
    exactly if no name is given to two elements, the root tag is the name of an element, and any two
    declarations of one attribute agree on whether it is required, whether it has a default value
    and the form of its type.  So two documents that differ only in the order of their parts compile
    both or neither. -/
theorem Source.compileSchema_iff_consistent (source : Source) (entry : EntryPoint) (tree : Tree)
    (id : NodeId) (hparse : source.parse entry = .ok tree) (hid : tree.IsWellFormed id) :
    ((∃ schema, tree.compileSchema id = .ok schema) ↔ (tree.schemaOutline id).IsConsistent)
    ∧ ∀ (source' : Source) (entry' : EntryPoint) (tree' : Tree) (id' : NodeId),
      source'.parse entry' = .ok tree' → tree'.IsWellFormed id' →
      (tree.schemaOutline id).rootTag = (tree'.schemaOutline id').rootTag →
      (tree.schemaOutline id).shared.Perm (tree'.schemaOutline id').shared →
      (tree.schemaOutline id).elements.Perm (tree'.schemaOutline id').elements →
      ((∃ schema, tree.compileSchema id = .ok schema)
        ↔ ∃ schema, tree'.compileSchema id' = .ok schema) := by
  obtain ⟨body, _, _, hparsed⟩ := Source.parse_eq_ok hparse
  have hiff := (Tree.compileSchema_settles hparsed hid).exists_ok_iff
  refine ⟨hiff, fun source' entry' tree' id' hparse' hid' hroot hshared helements => ?_⟩
  obtain ⟨body', _, _, hparsed'⟩ := Source.parse_eq_ok hparse'
  rw [hiff, (Tree.compileSchema_settles hparsed' hid').exists_ok_iff]
  constructor
  · intro hconsistent
    exact hconsistent.perm hroot hshared helements
  · intro hconsistent
    exact hconsistent.perm hroot.symm hshared.symm helements.symm

/-- A document with two elements, which declare one attribute, and an entry that is no element. -/
def boxDocument : Source :=
  .ofText ("<d elements=[<element-def name=root attributes=\x7ba:int\x7d/>,1,"
    ++ "<element-def name=box attributes=\x7ba:<int/>\x7d/>]/>")

/-- The same document with its elements exchanged. -/
def exchangedBoxDocument : Source :=
  .ofText ("<d elements=[<element-def name=box attributes=\x7ba:<int/>\x7d/>,1,"
    ++ "<element-def name=root attributes=\x7ba:int\x7d/>]/>")

/-- What the first of them declares. -/
def boxOutline : SchemaOutline where
  rootTag := "root"
  shared := []
  elements := [("root", [("a", ⟨false, false, some "integer"⟩)]),
    ("box", [("a", ⟨false, false, some "integer"⟩)])]

/-- The document compiles, and compiles with its elements exchanged. -/
theorem compileSchema_iff_consistent_boxes :
    ∃ tree other, boxDocument.parse .tag = .ok tree ∧ tree.IsWellFormed tree.root
      ∧ exchangedBoxDocument.parse .tag = .ok other ∧ other.IsWellFormed other.root
      ∧ (∃ schema, tree.compileSchema tree.root = .ok schema)
      ∧ ∃ schema, other.compileSchema other.root = .ok schema := by
  obtain ⟨tree, hparse, hid, houtline⟩ : ∃ tree, boxDocument.parse .tag = .ok tree
      ∧ tree.IsWellFormed tree.root ∧ tree.schemaOutline tree.root = boxOutline :=
    Source.exists_eq_ok_and (by decide +kernel)
  obtain ⟨other, hparse', hid', houtline'⟩ : ∃ other, exchangedBoxDocument.parse .tag = .ok other
      ∧ other.IsWellFormed other.root ∧ other.schemaOutline other.root
        = { boxOutline with elements := boxOutline.elements.reverse } :=
    Source.exists_eq_ok_and (by decide +kernel)
  obtain ⟨hiff, horder⟩ := Source.compileSchema_iff_consistent _ _ tree tree.root hparse hid
  have hcompiles : ∃ schema, tree.compileSchema tree.root = .ok schema := by
    rw [hiff, houtline]
    decide
  refine ⟨tree, other, hparse, hid, hparse', hid', hcompiles, ?_⟩
  rw [← horder _ _ other other.root hparse' hid']
  · exact hcompiles
  · rw [houtline, houtline']
  · rw [houtline, houtline']
  · rw [houtline, houtline']
    exact (List.reverse_perm _).symm

end CodeMarkup
