import CodeMarkup.Proofs.Schema.Consistency

namespace CodeMarkup

/-!
# Faults that a parse rules out

The compiler of definition documents makes checks of its own on what it reads from a tree: that an
entry of an object is a pair, that names and tags are not empty, that no two of them are the same.
For a parsed tree some of these never find anything, since the parser has refused such texts before.

* `SchemaFault.IsRuledOut`: these faults.
* `Clears`: a computation that fails with none of them; `Clears.bind` and the rules for loops are
  what the compiler is made of.
* `Tree.IsParsed.valueTypeOf_clears`: types, by the recursion over their expressions.
* `Tree.IsParsed.compileElement_clears`: an element, whose attributes and children have the keys of
  json objects.
* `Source.parse_discharges_checks`: keys of the json containers of a parsed tree, and what follows
  for the compiler.
-/

/-- The faults that no document has which was parsed. -/
def SchemaFault.IsRuledOut : SchemaFault → Prop
  | .duplicateAttribute _ _ | .duplicateChildTag _ _ | .invalidDocument _ => True
  | .emptyName owner => owner = "element"
  | _ => False

/-! ### Computations that may fail -/

/-- A computation that fails with none of these faults, and with a result of which `Q` holds if it
    succeeds. -/
def Clears {α : Type} (x : Except SchemaError α) (Q : α → Prop) : Prop :=
  match x with
  | .ok a => Q a
  | .error error => ¬error.fault.IsRuledOut

namespace Clears

variable {α β : Type} {x : Except SchemaError α} {f : α → Except SchemaError β} {Q R : α → Prop}
  {S : β → Prop}

theorem bind (hx : Clears x Q) (hf : ∀ a, Q a → Clears (f a) S) : Clears (x >>= f) S := by
  cases x with
  | error error => exact hx
  | ok a => exact hf a hx

theorem mono (hx : Clears x Q) (h : ∀ a, Q a → R a) : Clears x R := by
  cases x with
  | error error => exact hx
  | ok a => exact h a hx

theorem map {g : α → β} (hx : Clears x fun a => S (g a)) : Clears (g <$> x) S := by
  cases x with
  | error error => exact hx
  | ok a => exact hx

theorem refuse {tree : Tree} {id : NodeId} {fault : SchemaFault} (h : ¬fault.IsRuledOut) :
    Clears (tree.refuse id fault) Q :=
  h

/-- What holds after each number of items holds after all of them. -/
theorem foldlM {step : β → α → Except SchemaError β} (I : List α → β → Prop) {items : List α}
    {b : β} (hstep : ∀ done a b, a ∈ items → I done b → Clears (step b a) (I (done ++ [a])))
    (h : I [] b) : Clears (items.foldlM step b) (I items) := by
  -- the items left, after those that are done
  have hfrom : ∀ left done b, (∀ a ∈ left, a ∈ items) → I done b →
      Clears (left.foldlM step b) (I (done ++ left)) := by
    intro left
    induction left with
    | nil =>
      intro done b _ hdone
      rw [List.append_nil]
      exact hdone
    | cons a left ih =>
      intro done b hmem hdone
      obtain ⟨hfirst, hothers⟩ := List.forall_mem_cons.1 hmem
      rw [List.foldlM_cons, List.append_cons done a left]
      exact (hstep done a b hfirst hdone).bind fun next hnext => ih _ next hothers hnext
  exact hfrom items [] b (fun _ hmem => hmem) h

/-- What holds of each result, with the item it was made of, holds of all results. -/
theorem mapM {R : α → β → Prop} {items : List α} (hf : ∀ a ∈ items, Clears (f a) (R a)) :
    Clears (items.mapM f) (List.Forall₂ R items) := by
  induction items with
  | nil => exact .nil
  | cons a items ih =>
    obtain ⟨hfirst, hothers⟩ := List.forall_mem_cons.1 hf
    rw [List.mapM_cons]
    exact hfirst.bind fun b hb => (ih hothers).bind fun bs hbs => .cons hb hbs

end Clears

namespace Tree

variable {source : Source} {body : List Token} {tree : Tree} {id : NodeId} {tag name : String}
  {inner : NodeId → Except SchemaError ValueType}

/-! ### Parts of a document -/

theorem requiredString_clears :
    Clears (tree.requiredString id tag name) fun text => text.isEmpty = false := by
  unfold requiredString
  split
  · exact .refuse nofun
  · split
    · split
      · exact .refuse nofun
      · next hempty => exact eq_false_of_ne_true hempty
    · exact .refuse nofun

theorem requiredValue_clears : Clears (tree.requiredValue id tag name) fun _ => True := by
  unfold requiredValue
  split
  · trivial
  · exact .refuse nofun

theorem entryParts_clears {entry : NodeId} (h : ∃ pair, tree.pair? entry = some pair) :
    Clears (tree.entryParts entry) fun pair => tree.pair? entry = some pair := by
  obtain ⟨pair, hpair⟩ := h
  rw [entryParts_eq hpair]
  exact hpair

/-- Entries that are pairs with different keys. -/
structure ArePairs (tree : Tree) (entries : List NodeId) : Prop where
  exists_pair : ∀ entry ∈ entries, ∃ pair, tree.pair? entry = some pair
  keys_nodup : ((entries.filterMap tree.pair?).map (·.1)).Nodup

theorem IsParsed.arePairs (h : tree.IsParsed source body) (hobject : tree.isJsonObject id = true) :
    tree.ArePairs ((tree.jsonEntries? id).getD []) :=
  have hpairs := h.pairs_of_object hobject
  ⟨hpairs.1, hpairs.2⟩

theorem IsParsed.objectEntries_clears (h : tree.IsParsed source body) {context : String} :
    Clears (tree.objectEntries id name context) tree.ArePairs := by
  unfold objectEntries
  split
  · exact ⟨nofun, List.nodup_nil⟩
  · split
    · exact .refuse nofun
    · split
      · next hobject => exact h.arePairs hobject
      · exact .refuse nofun

theorem arrayValues_clears : Clears (tree.arrayValues id tag name) fun _ => True := by
  unfold arrayValues
  split
  · exact .refuse nofun
  · split
    · exact .refuse nofun
    · split
      · trivial
      · exact .refuse nofun

/-! ### Types -/

theorem typeNamed_clears : Clears (tree.typeNamed id name) fun _ => True := by
  unfold typeNamed
  split
  · trivial
  · exact .refuse nofun

theorem enumOf_clears {values : NodeId} : Clears (tree.enumOf id values) fun _ => True := by
  unfold enumOf
  split
  · refine Clears.bind (Clears.mapM (R := fun _ _ => True) fun item _ => ?_) fun texts _ => ?_
    · split
      · split
        · exact .refuse nofun
        · trivial
      · exact .refuse nofun
    · split
      · exact .refuse nofun
      · trivial
  · exact .refuse nofun

theorem IsParsed.typedMapOf_clears (h : tree.IsParsed source body)
    (hinner : ∀ child, Clears (inner child) fun _ => True) :
    Clears (tree.typedMapOf inner id) fun _ => True := by
  unfold typedMapOf
  split
  · split
    · next hobject =>
      refine Clears.bind (Clears.mapM (R := fun _ _ => True) fun entry hentry => ?_)
        fun fields _ => trivial
      refine (entryParts_clears ((h.arePairs hobject).exists_pair entry hentry)).bind
        fun pair _ => ?_
      exact (hinner pair.2).bind fun type _ => trivial
    · exact .refuse nofun
  · exact .refuse nofun

theorem IsParsed.typeOfTag_clears (h : tree.IsParsed source body)
    (hinner : ∀ child, Clears (inner child) fun _ => True) :
    Clears (tree.typeOfTag inner id tag) fun _ => True := by
  have hall : ∀ nodes : List NodeId, Clears (nodes.mapM inner) fun _ => True :=
    fun nodes => (Clears.mapM fun child _ => hinner child).mono fun _ _ => trivial
  have htext : ∀ name, Clears (tree.requiredString id tag name) fun _ => True :=
    fun name => requiredString_clears.mono fun _ _ => trivial
  unfold typeOfTag
  split
  · trivial
  · split
    · exact .map (hall _)
    · exact .map (hall _)
    · exact h.typedMapOf_clears hinner
    · exact .map (htext "name")
    · exact .map (htext "name")
    · exact .map (htext "name")
    · exact .map (htext "name")
    · exact requiredValue_clears.bind fun element _ => (hinner element).bind fun _ _ => trivial
    · refine (htext "keyType").bind fun key _ => (htext "valueType").bind fun value _ => ?_
      exact typeNamed_clears.bind fun key _ => typeNamed_clears.bind fun value _ => trivial
    · refine requiredValue_clears.bind fun list _ => requiredValue_clears.bind fun map _ => ?_
      exact (hinner list).bind fun list _ => (hinner map).bind fun map _ => trivial
    · exact requiredValue_clears.bind fun values _ => enumOf_clears
    · exact .refuse nofun

theorem typeRefOf_clears {arguments : List NodeId} :
    Clears (tree.typeRefOf id arguments) fun _ => True := by
  unfold typeRefOf
  split
  · split
    · split
      · exact .refuse nofun
      · trivial
    · exact .refuse nofun
  · exact .refuse nofun

theorem typeOfCall_clears {arguments : List NodeId}
    (hinner : ∀ child, Clears (inner child) fun _ => True) :
    Clears (tree.typeOfCall inner id name arguments) fun _ => True := by
  have hall : Clears (arguments.mapM inner) fun _ => True :=
    (Clears.mapM fun child _ => hinner child).mono fun _ _ => trivial
  unfold typeOfCall
  split
  · exact .map hall
  · exact .map hall
  · refine hall.bind fun types _ => ?_
    split
    · trivial
    · exact .refuse nofun
  · exact typeRefOf_clears
  · split
    · exact typeNamed_clears
    · exact .refuse nofun

/-- **Types.**  The induction is on the node, as the recursion is: a type is read from nodes that
    were made before it. -/
theorem IsParsed.valueTypeOf_clears (h : tree.IsParsed source body) (id : NodeId) :
    Clears (tree.valueTypeOf id) fun _ => True := by
  induction id using Nat.strongRecOn with
  | _ id ih =>
    rw [valueTypeOf]
    have hinner : ∀ child, Clears (if child < id then tree.valueTypeOf child
        else tree.refuse id (.unsupportedTypeExpression (tree.textOf id))) fun _ => True := by
      intro child
      split
      · next hlt => exact ih child hlt
      · exact .refuse nofun
    dsimp only
    split
    · exact h.typeOfTag_clears hinner
    · exact typeOfCall_clears hinner
    · exact typeNamed_clears
    · exact hinner _
    · exact .refuse nofun

/-! ### Attributes -/

theorem IsParsed.compileAttribute_clears (h : tree.IsParsed source body) (value : NodeId) :
    Clears (tree.compileAttribute name value) fun attr => attr.name = name := by
  unfold compileAttribute
  refine (h.valueTypeOf_clears value).bind fun type _ => ?_
  dsimp only
  split
  · exact .refuse (by simp [SchemaFault.IsRuledOut])
  · rfl

theorem conflict?_not_isRuledOut {existing incoming : SchemaAttribute} {context : String}
    {fault : SchemaFault} (h : conflict? existing incoming context = some fault) :
    ¬fault.IsRuledOut := by
  unfold conflict? at h
  split at h
  · cases h
    exact id
  · split at h
    · cases h
      exact id
    · split at h
      · cases h
        exact id
      · cases h

theorem register_clears {found : Registered} {declared : List (String × Trait)}
    {names : List String} {incoming : SchemaAttribute} {context : String} {entry : NodeId}
    (h : found.Holds declared names) :
    Clears (tree.register found incoming context entry) fun next =>
      ∃ declared, next.Holds declared (names ++ [incoming.name]) := by
  have hsettles : Settles (tree.register found incoming context entry) _ _ := register_settles h
  cases hresult : tree.register found incoming context entry with
  | ok next =>
    rw [hresult] at hsettles
    exact ⟨_, hsettles.2⟩
  | error error =>
    unfold register at hresult
    dsimp only at hresult
    split at hresult
    · cases hresult
    · split at hresult
      · next hfault =>
        cases hresult
        obtain ⟨existing, -, hconflict⟩ := Option.bind_eq_some_iff.1 hfault
        exact conflict?_not_isRuledOut hconflict
      · cases hresult

/-- The attributes just defined have the keys of their entries for names. -/
theorem IsParsed.registerAll_clears (h : tree.IsParsed source body)
    {registry : List SchemaAttribute} {declared : List (String × Trait)}
    (hregistry : Registers registry declared) {context : String → String} {entries : List NodeId}
    (hentries : tree.ArePairs entries) :
    Clears (tree.registerAll registry context entries) fun found =>
      ∃ declared, found.Holds declared ((entries.filterMap tree.pair?).map (·.1)) := by
  refine Clears.foldlM (fun done (found : Registered) =>
    ∃ declared, found.Holds declared ((done.filterMap tree.pair?).map (·.1)))
    (fun done entry found hentry ⟨_, hfound⟩ => ?_) ⟨declared, hregistry, rfl⟩
  refine (entryParts_clears (hentries.exists_pair entry hentry)).bind fun ⟨key, value⟩ hpair => ?_
  refine (h.compileAttribute_clears value).bind fun incoming hname => ?_
  refine (register_clears hfound).mono fun next hnext => ?_
  rw [List.filterMap_append, List.filterMap_cons_some hpair, List.map_append]
  rw [hname] at hnext
  exact hnext

/-! ### Elements and documents -/

/-- The tags of children are the keys of the entries that they are made of. -/
theorem keys_eq_of_forall₂ {entries : List NodeId} {children : List (String × ValueType)}
    (h : List.Forall₂ (fun entry child => ∃ value, tree.pair? entry = some (child.1, value)) entries
      children) : (entries.filterMap tree.pair?).map (·.1) = children.map (·.1) := by
  induction h with
  | nil => rfl
  | cons hpair _ ih =>
    obtain ⟨value, hpair⟩ := hpair
    rw [List.filterMap_cons_some hpair, List.map_cons, List.map_cons, ih]

/-- **One element.**  Its names are the keys of json objects, and so are the tags of its
    children. -/
theorem IsParsed.compileElement_clears (h : tree.IsParsed source body)
    {registry : List SchemaAttribute} {declared : List (String × Trait)}
    (hregistry : Registers registry declared) :
    Clears (tree.compileElement registry id) fun result =>
      ∃ declared, Registers result.1 declared := by
  unfold compileElement
  refine requiredString_clears.bind fun tag htag => ?_
  refine h.objectEntries_clears.bind fun entries hentries => ?_
  refine (h.registerAll_clears hregistry hentries).bind fun found ⟨declared, hfound⟩ => ?_
  refine h.objectEntries_clears.bind fun childEntries hchildren => ?_
  refine Clears.bind (Clears.mapM (R := fun entry (child : String × ValueType) =>
    ∃ value, tree.pair? entry = some (child.1, value)) fun entry hentry => ?_)
    fun children hkeys => ?_
  · refine (entryParts_clears (hchildren.exists_pair entry hentry)).bind
      fun ⟨key, value⟩ hpair => ?_
    exact (h.valueTypeOf_clears value).bind fun type _ => ⟨value, hpair⟩
  · have hattributes := firstRepeat?_eq_none.2 hentries.keys_nodup
    have htags := firstRepeat?_eq_none.2 (keys_eq_of_forall₂ hkeys ▸ hchildren.keys_nodup)
    rw [hfound.filterMap_eq]
    dsimp only
    rw [hattributes, htags, if_neg (by simp [htag])]
    exact ⟨declared, hfound.toRegisters⟩

theorem IsParsed.compileElements_clears (h : tree.IsParsed source body) (nodes : List NodeId)
    {registry : List SchemaAttribute} {declared : List (String × Trait)}
    (hregistry : Registers registry declared) :
    Clears (tree.compileElements registry nodes) fun result =>
      ∃ declared, Registers result.1 declared := by
  induction nodes generalizing registry declared with
  | nil => exact ⟨declared, hregistry⟩
  | cons id nodes ih =>
    unfold compileElements
    split
    · refine (h.compileElement_clears hregistry).bind fun first hfirst => ?_
      obtain ⟨registry, element⟩ := first
      obtain ⟨_, hregistry⟩ := hfirst
      refine (ih hregistry).bind fun later hlater => ?_
      obtain ⟨registry, others⟩ := later
      exact hlater
    · exact ih hregistry

theorem checkSchema_clears {schema : Schema} (h : (schema.attributes.map (·.name)).Nodup) :
    Clears (tree.checkSchema schema) fun _ => True := by
  unfold checkSchema
  rw [firstRepeat?_eq_none.2 h]
  dsimp only
  split
  · exact .refuse nofun
  · split
    · trivial
    · exact .refuse nofun

/-- **A whole document.** -/
theorem IsParsed.compileSchema_clears (h : tree.IsParsed source body)
    (htag : (tree.tagName? id).isSome = true) : Clears (tree.compileSchema id) fun _ => True := by
  obtain ⟨tag, htag⟩ := Option.isSome_iff_exists.1 htag
  have hdefinition : tree.definitionTag id = .ok tag := by rw [definitionTag, htag]
  unfold compileSchema
  rw [hdefinition, ok_bind]
  refine h.objectEntries_clears.bind fun entries hentries => ?_
  refine (h.registerAll_clears .nil hentries).bind fun shared hregistered => ?_
  obtain ⟨_, hshared⟩ := hregistered
  refine arrayValues_clears.bind fun definitions _ => ?_
  refine (h.compileElements_clears definitions hshared.toRegisters).bind
    fun compiled hcompiled => ?_
  obtain ⟨registry, elements⟩ := compiled
  obtain ⟨_, hregistry⟩ := hcompiled
  exact checkSchema_clears hregistry.names_nodup

end Tree

/-- **Parsing discharges checks of the compiler.**  In a parsed tree all entries of a json object
    have keys with a text, no two of them the same, and the entries of a json array have none.
    Hence no tag of the tree is refused as a document because it is none, because an attribute or a
    child is declared twice in one place, or because an element has an empty name. -/
theorem Source.parse_discharges_checks (source : Source) (entry : EntryPoint) (tree : Tree)
    (h : source.parse entry = .ok tree) :
    (∀ id entries, tree.kind id = .json false entries →
      (∀ entry ∈ entries, ∃ key value text,
        tree.kind entry = .jsonEntry (some key) value ∧ tree.jsonKey? entry = some text)
      ∧ (entries.map tree.jsonKey?).Nodup)
    ∧ (∀ id entries, tree.kind id = .json true entries →
      ∀ entry ∈ entries, ∃ value, tree.kind entry = .jsonEntry none value)
    ∧ ∀ id error, (tree.tagName? id).isSome = true → tree.compileSchema id = .error error →
      ¬error.fault.IsRuledOut := by
  obtain ⟨body, -, -, hparsed⟩ := Source.parse_eq_ok h
  have hkeyed : ∀ id isArray entries, tree.kind id = .json isArray entries →
      (NodeKind.json isArray entries).IsKeyed tree.nodes := fun id isArray entries hkind =>
    (hparsed.isSound (lt_size_of_kindIn (hkind.trans_ne nofun))).keyed hkind
  refine ⟨fun id entries hkind => ?_, fun id entries hkind => hkeyed id true entries hkind,
    fun id error htag herror => ?_⟩
  · obtain ⟨hkeys, hnodup⟩ := hkeyed id false entries hkind
    have hsame : ∀ entry ∈ entries, tree.jsonKey? entry = keyIn tree.nodes entry :=
      fun entry hentry => Tree.jsonKey?_eq_keyIn (hkeys entry hentry)
    refine ⟨fun entry hentry => ?_, by rwa [List.map_congr_left hsame]⟩
    obtain ⟨text, htext⟩ := Option.ne_none_iff_exists'.1 (hkeys entry hentry)
    obtain ⟨key, value, hkind⟩ := Tree.exists_kind_of_keyIn htext
    exact ⟨key, value, text, hkind, (hsame entry hentry).trans htext⟩
  · have hclears := hparsed.compileSchema_clears htag
    rw [herror] at hclears
    exact hclears

/-- A document with an attribute that an element gives another type. -/
def conflictingDocument : Source :=
  .ofText ("<d attributes=\x7ba:int\x7d "
    ++ "elements=[<element-def name=root attributes=\x7ba:string\x7d/>]/>")

/-- A document that declares an attribute twice, with two types: it is refused for the types. -/
theorem Source.parse_discharges_checks_conflict :
    ∃ tree error, conflictingDocument.parse .tag = .ok tree
      ∧ tree.compileSchema tree.root = .error error ∧ ¬error.fault.IsRuledOut := by
  obtain ⟨tree, h, htag, hfails⟩ : ∃ tree, conflictingDocument.parse .tag = .ok tree
      ∧ (tree.tagName? tree.root).isSome = true ∧ (tree.compileSchema tree.root).isOk = false :=
    Source.exists_eq_ok_and (by decide +kernel)
  cases herror : tree.compileSchema tree.root with
  | ok schema =>
    rw [herror] at hfails
    cases hfails
  | error error =>
    exact ⟨tree, error, h, herror,
      (Source.parse_discharges_checks _ _ tree h).2.2 _ error htag herror⟩

end CodeMarkup
