import CodeMarkup.Proofs.Lexing.Layout
import CodeMarkup.Proofs.Schema.Consistency
import CodeMarkup.Proofs.Terms.Parsing
import CodeMarkup.Schema.TypeExpression

namespace CodeMarkup

/-!
# Types that are written and read back

The text of a type is an expression, and the type that this expression writes is the type itself.

* `IsOneString`: a text that is a single string token.
* `ValueType.IsDescribed`, `ValueType.depth`: the types that are written as names and calls, and how
  deep their calls are nested.
* `ValueType.term`: a type as a term.
* `ValueType.IsDescribed.valueTypeOf_eq`: the nodes of the term write the type.
* `ValueType.describe_parses_back`: the text of a type parses, and the tree writes the type.
-/

/-! ### Strings -/

/-- A text that is one string token, from its first character to its last.  A string with a comment
    after it is none. -/
def IsOneString (text : String) : Prop :=
  ∃ content, (Source.ofText text).tokens = .ok
    [⟨.string content, ⟨0, (Source.ofText text).size⟩⟩, ⟨.eof, .point (Source.ofText text).size⟩]

/-- A quoted text that is one token holds no quote that ends it. -/
theorem IsOneString.isStringBody {name : String} (h : IsOneString (ValueType.quote name)) :
    IsStringBody name.toList := by
  obtain ⟨content, htokens⟩ := h
  have hchars : (Source.ofText (ValueType.quote name)).chars = '"' :: (name.toList ++ ['"']) := by
    simp [Source.ofText, ValueType.quote]
  have hlexes := lexes_of_tokensFrom htokens
  rw [hchars] at hlexes
  cases hlexes with
  | @token _ _ _ _ trivia after rest _ _ hgap hlexeme _ hstart hstop hrest =>
    rw [Gap.scan_cons (by decide), if_neg (by decide)] at hgap
    cases hgap
    -- the token is as long as the text, so nothing follows it
    have happ := Lexeme.scan_append ('"' :: (name.toList ++ ['"']))
    rw [hlexeme] at happ
    dsimp only at happ
    have hlength := congrArg byteLength happ
    rw [byteLength_append] at hlength
    rw [Source.size, hchars] at hstop
    have hnil : rest = [] := by
      by_contra hne
      have hpos := byteLength_pos hne
      omega
    subst hnil
    obtain ⟨inner, hbody, htext, -⟩ := Lexeme.enclosed_eq_ok hlexeme
    rw [htext, List.append_nil, List.cons_append, List.cons.injEq] at happ
    rw [IsStringBody, hbody, List.append_cancel_right happ.2]

namespace ValueType

/-! ### Types as terms -/

/-- Whether a type is a name by itself. -/
def isSimple : ValueType → Bool
  | .string | .name | .qualifiedName | .boolean | .integer | .namePair | .json => true
  | _ => false

/-- The types that are written as names and calls of names: a map has a type for its values, and a
    reference a name that can be quoted. -/
inductive IsDescribed : ValueType → Prop where
  | simple {type : ValueType} (h : type.isSimple = true) : IsDescribed type
  | one {types : List ValueType} (htypes : ∀ type ∈ types, IsDescribed type) :
      IsDescribed (.one types)
  | many {types : List ValueType} (htypes : ∀ type ∈ types, IsDescribed type) :
      IsDescribed (.many types)
  | map {key : ValueType} {values : List ValueType} (hkey : IsDescribed key)
      (hvalues : ∀ type ∈ values, IsDescribed type) (hne : values ≠ []) :
      IsDescribed (.map key values)
  | typeRef {name : String} (hne : name ≠ "") (hname : IsOneString (quote name)) :
      IsDescribed (.typeRef name)

mutual

/-- How deep the calls of a type are nested, its name included.  Forms other than the described ones
    count as a name. -/
def depth : ValueType → Nat
  | .one types | .many types => 1 + depthAll types
  | .map key values => 1 + max key.depth (depthAll values)
  | .typeRef _ => 2
  | _ => 1

/-- The depth of the deepest of some types. -/
def depthAll : List ValueType → Nat
  | [] => 0
  | type :: types => max type.depth (depthAll types)

end

mutual

/-- A type as a term. -/
def term : ValueType → Term
  | .one types => .call "one" (terms types)
  | .many types => .call "many" (terms types)
  | .map key values => .call "map" (key.term :: terms values)
  | .typeRef target => .call "typeRef" [.text target]
  | type => .name type.category

/-- Types as terms. -/
def terms : List ValueType → List Term
  | [] => []
  | type :: types => type.term :: terms types

end

theorem terms_eq_map (types : List ValueType) : terms types = types.map term := by
  induction types with
  | nil => rfl
  | cons type types ih => rw [terms, ih, List.map_cons]

theorem depthAll_terms {types : List ValueType}
    (h : ∀ type ∈ types, type.term.depth = type.depth) :
    Term.depthAll (terms types) = depthAll types := by
  induction types with
  | nil => rfl
  | cons type types ih =>
    obtain ⟨htype, htypes⟩ := List.forall_mem_cons.1 h
    rw [terms, Term.depthAll, depthAll, htype, ih htypes]

theorem writeAll_terms {types : List ValueType}
    (h : ∀ type ∈ types, type.term.write = type.describe) :
    Term.writeAll (terms types) = describeAll types := by
  induction types with
  | nil => rfl
  | cons type types ih =>
    obtain ⟨htype, htypes⟩ := List.forall_mem_cons.1 h
    rw [terms, Term.writeAll, describeAll, htype, ih htypes]

theorem forall_mem_terms {types : List ValueType} {P : Term → Prop}
    (h : ∀ type ∈ types, P type.term) : ∀ term ∈ terms types, P term := by
  rw [terms_eq_map]
  exact List.forall_mem_map.2 h

namespace IsDescribed

variable {type : ValueType}

theorem depth_term (h : type.IsDescribed) : type.term.depth = type.depth := by
  induction h with
  | @simple type h =>
    cases type with
    | string | name | qualifiedName | boolean | integer | namePair | json => rfl
    | _ => cases h
  | one _ ih => rw [term, Term.depth, depth, depthAll_terms ih]
  | many _ ih => rw [term, Term.depth, depth, depthAll_terms ih]
  | map _ _ _ ihkey ih => rw [term, Term.depth, depth, Term.depthAll, ihkey, depthAll_terms ih]
  | typeRef _ _ => rfl

/-- The text of a type is that of its term. -/
theorem write_term (h : type.IsDescribed) : type.term.write = type.describe := by
  induction h with
  | @simple type h =>
    cases type with
    | string | name | qualifiedName | boolean | integer | namePair | json => rfl
    | _ => cases h
  | one _ ih =>
    rw [term, Term.write, describe, writeAll_terms ih]
    rfl
  | many _ ih =>
    rw [term, Term.write, describe, writeAll_terms ih]
    rfl
  | @map key values _ _ hne ihkey ih =>
    rw [term, Term.write, describe, Term.writeAll, ihkey, writeAll_terms ih]
    cases values with
    | nil => exact absurd rfl hne
    | cons value values =>
      show "map(" ++ (key.describe ++ ", " ++ joinWith ", " (describeAll (value :: values))) ++ ")"
        = _
      simp only [String.append_assoc]
  | typeRef _ _ => rfl

/-- The term of a type can be written. -/
theorem isWritable_term (h : type.IsDescribed) : type.term.IsWritable := by
  induction h with
  | @simple type h =>
    cases type with
    | string | name | qualifiedName | boolean | integer | namePair | json =>
      exact .name (by decide) (by decide)
    | _ => cases h
  | one _ ih => exact .call (by decide) (by decide) (forall_mem_terms ih)
  | many _ ih => exact .call (by decide) (by decide) (forall_mem_terms ih)
  | map _ _ _ ihkey ih =>
    exact .call (by decide) (by decide) (List.forall_mem_cons.2 ⟨ihkey, forall_mem_terms ih⟩)
  | typeRef _ hname =>
    refine .call (by decide) (by decide) (List.forall_mem_singleton.2 ?_)
    exact .text hname.isStringBody

end IsDescribed

end ValueType

/-! ### Reading terms -/

/-- Results of items one by one are the results of all items. -/
theorem mapM_eq_ok {ε α β : Type} {f : α → Except ε β} {results : List β} {items : List α}
    (h : List.Forall₂ (fun result item => f item = .ok result) results items) :
    items.mapM f = .ok results := by
  induction h with
  | nil => rfl
  | cons hfirst _ ih =>
    rw [List.mapM_cons, hfirst, ok_bind, ih]
    rfl

namespace Tree

variable {tree : Tree} {id : NodeId} {types : List ValueType}

/-- The type that a node below another one writes. -/
def valueTypeBelow (tree : Tree) (id child : NodeId) : Except SchemaError ValueType :=
  if child < id then tree.valueTypeOf child
  else tree.refuse id (.unsupportedTypeExpression (tree.textOf id))

theorem valueTypeOf_call {name : String} {arguments : List NodeId}
    (hkind : tree.kind id = .methodCall none [] name arguments) :
    tree.valueTypeOf id = tree.typeOfCall (tree.valueTypeBelow id) id name arguments := by
  rw [valueTypeOf, hkind]
  rfl

theorem valueTypeOf_name {word : String} (h : (Term.name word).Spells tree.nodes id) :
    tree.valueTypeOf id = tree.typeNamed id word := by
  cases h with
  | name hkind =>
    replace hkind : tree.kind id = .simpleName word := hkind
    rw [valueTypeOf, hkind]

theorem stringValue?_text {content : String} (h : (Term.text content).Spells tree.nodes id) :
    tree.stringValue? id = some content := by
  cases h with
  | text hkind =>
    replace hkind : tree.kind id = .literal (.string content) := hkind
    rw [stringValue?, hkind]

/-- The arguments of a call write the types that they spell. -/
theorem exists_arguments_of_spells {function : String}
    (hspells : (Term.call function (ValueType.terms types)).Spells tree.nodes id)
    (htypes : ∀ type ∈ types, ∀ child, type.term.Spells tree.nodes child →
      tree.valueTypeOf child = .ok type) :
    ∃ ids, tree.kind id = .methodCall none [] function ids
      ∧ ids.mapM (tree.valueTypeBelow id) = .ok types := by
  obtain ⟨ids, hkind, harguments⟩ := hspells.exists_arguments
  refine ⟨ids, hkind, mapM_eq_ok ?_⟩
  rw [ValueType.terms_eq_map, List.forall₂_map_left_iff] at harguments
  refine ((List.forall₂_and_left types ids).2 ⟨htypes, harguments⟩).imp ?_
  rintro type child ⟨htype, hlt, hchild⟩
  rw [valueTypeBelow, if_pos hlt, htype child hchild]

end Tree

namespace ValueType

variable {tree : Tree} {id : NodeId} {type : ValueType}

/-- **The nodes of a type write it.** -/
theorem IsDescribed.valueTypeOf_eq (h : type.IsDescribed)
    (hspells : type.term.Spells tree.nodes id) : tree.valueTypeOf id = .ok type := by
  induction h generalizing id with
  | @simple type h =>
    cases type with
    | string | name | qualifiedName | boolean | integer | namePair | json =>
      exact Tree.valueTypeOf_name hspells
    | _ => cases h
  | one _ ih =>
    obtain ⟨ids, hkind, hids⟩ := Tree.exists_arguments_of_spells hspells fun type htype child =>
      ih type htype
    rw [Tree.valueTypeOf_call hkind]
    show ValueType.one <$> ids.mapM _ = _
    rw [hids]
    rfl
  | many _ ih =>
    obtain ⟨ids, hkind, hids⟩ := Tree.exists_arguments_of_spells hspells fun type htype child =>
      ih type htype
    rw [Tree.valueTypeOf_call hkind]
    show ValueType.many <$> ids.mapM _ = _
    rw [hids]
    rfl
  | @map key values _ _ hne ihkey ih =>
    have hall : ∀ type ∈ key :: values, ∀ child, type.term.Spells tree.nodes child →
        tree.valueTypeOf child = .ok type :=
      List.forall_mem_cons.2 ⟨fun child => ihkey, fun type htype child => ih type htype⟩
    obtain ⟨ids, hkind, hids⟩ := Tree.exists_arguments_of_spells hspells hall
    rw [Tree.valueTypeOf_call hkind]
    cases values with
    | nil => exact absurd rfl hne
    | cons value values =>
      show (ids.mapM _ >>= _) = _
      rw [hids]
      rfl
  | @typeRef name hne _ =>
    obtain ⟨ids, hkind, harguments⟩ := hspells.exists_arguments
    obtain ⟨child, _, ⟨-, htext⟩, hnil, rfl⟩ := List.forall₂_cons_left_iff.1 harguments
    obtain rfl := List.forall₂_nil_left_iff.1 hnil
    rw [Tree.valueTypeOf_call hkind]
    show tree.typeRefOf id [child] = _
    rw [Tree.typeRefOf, Tree.stringValue?_text htext]
    exact if_neg (by simpa using hne)

/-- **Types parse back.**  The text of a type that is nested no deeper than expressions may be, with
    64 levels, parses as an expression, and the root of its tree writes exactly that type. -/
theorem describe_parses_back (type : ValueType) (h : type.IsDescribed)
    (hdepth : type.depth ≤ maxNesting) :
    ∃ tree, (Source.ofText type.describe).parse .expression = .ok tree
      ∧ tree.valueTypeOf tree.root = .ok type := by
  rw [← h.depth_term] at hdepth
  obtain ⟨tree, hparse, hspells⟩ := h.isWritable_term.parse_write hdepth
  rw [h.write_term] at hparse
  exact ⟨tree, hparse, h.valueTypeOf_eq hspells⟩

/-- A map of every form that is described, with an escaped quote in a name. -/
def describedMap : ValueType :=
  .map .name [.one [], .many [.boolean, .typeRef "a \\\" b"]]

theorem describe_parses_back_map :
    describedMap.describe = "map(name, one(), many(boolean, typeRef(\"a \\\" b\")))"
      ∧ describedMap.depth = 4
      ∧ ∃ tree, (Source.ofText describedMap.describe).parse .expression = .ok tree
        ∧ tree.valueTypeOf tree.root = .ok describedMap := by
  have hname : IsOneString (quote "a \\\" b") :=
    ⟨"a \\\" b", Source.tokens_eq_ok (by decide +kernel)⟩
  have hmany : IsDescribed (.many [.boolean, .typeRef "a \\\" b"]) := by
    refine .many (List.forall_mem_cons.2 ⟨.simple rfl, List.forall_mem_singleton.2 ?_⟩)
    exact .typeRef (by decide) hname
  have hvalues : ∀ type ∈ [ValueType.one [], .many [.boolean, .typeRef "a \\\" b"]],
      type.IsDescribed :=
    List.forall_mem_cons.2 ⟨.one nofun, List.forall_mem_singleton.2 hmany⟩
  refine ⟨by decide, by decide, describe_parses_back _ ?_ (by decide)⟩
  exact .map (.simple rfl) hvalues (List.cons_ne_nil _ _)

end ValueType

end CodeMarkup
