import CodeMarkup.Proofs.Traces.Markup

namespace CodeMarkup.Grammar

open CodeMarkup.Parser

/-!
# Traces of expressions

* `block_traced`, `classBody_traced`, `arguments_traced`: what expressions share with statements and
  declarations.
* `lambda_traced`, `creation_traced`, `primary_traced`, `unary_traced`: expressions without binary
  operations, for which `binary_run` stands.
* `conditional_traced`, `expression_traced`: what stands around them.
-/

variable {p : Productions} {source : Source} {s : State}

theorem classLiteral_traced {type : Parser NodeId} (htype : Traced 0 type) :
    Traced 0 (classLiteral type) := by
  apply Traced.bind start_traced
  intro origin
  apply Traced.bind htype
  intro found
  exact Traced.token rfl (Traced.token rfl (pushFrom_traced rfl _))

theorem referenceName_traced : Traced 0 referenceName :=
  Traced.branch (accept_traced rfl) (.pure _) (identifier_traced _)

section

variable (hp : p.Traced)

include hp

/-! ### Parts of blocks and bodies -/

theorem block_traced : Traced 0 (block p) := by
  apply Traced.bind start_traced
  intro origin
  refine Traced.token rfl ?_
  -- the loop ends at the closing brace, which is taken without another test
  refine Traced.manyWhile (fun s => !(s.current.kind == .rightBrace)) (fun _ _ => rfl) ?_ ?_
  · intro source s _
    exact Traced.branch atEnd_traced (unexpected_traced _) (hp.traced _) source s
  · intro statements source s hend
    have hkind : kindAt s.rest 0 = .rightBrace := by simpa [s.kindAt_rest_zero] using hend
    exact .advance (isParen_of_eq hkind rfl) (pushFrom_traced rfl _)

theorem members_traced : Traced 0 (members p) := by
  refine Traced.bind (many_traced (notAt_traced _) ?_) fun items => .pure _
  refine Traced.branch atEnd_traced (unexpected_traced _) ?_
  refine Traced.branch (accept_traced rfl) (.pure _) ?_
  exact Traced.bind (hp.traced _) fun member => .pure _

theorem classBody_traced : Traced 0 (classBody p) := by
  refine Traced.token rfl ?_
  apply Traced.bind (members_traced hp)
  intro found
  exact Traced.token rfl (.pure _)

theorem arguments_traced : Traced 0 (arguments p) := by
  apply Traced.opening
  refine Traced.acceptClosing (.pure _) ?_
  refine Traced.bind (commaSeparated_traced (hp.traced _)) fun found => ?_
  exact Traced.closing (.pure _)

/-! ### Lambdas and creation -/

theorem lambdaParameter_traced : Traced 0 (lambdaParameter p) := by
  apply Traced.bind (peek_traced 1)
  intro next
  apply Traced.bind (peek_traced 0)
  intro kind
  split
  · apply Traced.bind start_traced
    intro origin
    exact Traced.bind (identifier_traced _) fun name => pushFrom_traced rfl _
  · exact parameter_traced hp

theorem lambda_traced : Traced 0 (lambda p) := by
  apply Traced.bind start_traced
  intro origin
  -- the arrow and the body, after parameters with or without parentheses
  have hrest : ∀ (parameters : List NodeId) (parenthesized : Bool), Traced 0 (do
      expect .arrow
      let body ← if ← check .leftBrace then block p else p .expression
      pushFrom origin (.lambda parameters body parenthesized)) := by
    intro parameters parenthesized
    refine Traced.token rfl ?_
    refine Traced.branch (check_traced _) ?_ ?_
    · exact Traced.bind (block_traced hp) fun body => pushFrom_traced rfl _
    · exact Traced.bind (hp.traced _) fun body => pushFrom_traced rfl _
  refine Traced.acceptOpening ?_ ?_
  · refine Traced.bind (listUntil_traced rfl (lambdaParameter_traced hp)) fun found => ?_
    exact Traced.closing (hrest found true)
  · exact Traced.bind (lambdaParameter_traced hp) fun only => hrest [only] false

theorem creationDims_traced : Traced 0 (creationDims p) := by
  refine extend_traced (fun (sizes, unsized) => ?_) _
  refine Traced.branch (accept_traced rfl) ?_ (.pure _)
  refine Traced.branch (accept_traced rfl) (.pure _) ?_
  split
  · exact unexpected_traced _
  · apply Traced.bind (hp.traced _)
    intro size
    exact Traced.token rfl (.pure _)

/-- What follows the type of an array that is created. -/
theorem arrayCreation_traced {type : NodeId} (htype : HasForm NodeKind.isType s type)
    (origin : Nat) : TracedAt source s 0 (do
      let (sizes, unsized) ← creationDims p
      let init ← optional (check .leftBrace) (p .arrayInitializer)
      if sizes.isEmpty && init.isNone then unexpected "array dimension or initializer"
      else pushFrom origin (.arrayCreation type sizes unsized init)) := by
  refine .bind (creationDims_traced hp source s) fun ⟨sizes, unsized⟩ t hdims => ?_
  have hinit : Traced 0 (optional (check .leftBrace) (p .arrayInitializer)) :=
    optional_traced (check_traced _) (hp.traced _)
  refine .bind (hinit source t) fun init u hrun => ?_
  have hkept : s.nodes.toList <+: u.nodes.toList :=
    ((creationDims_traced hp source s _ _ hdims).trans (hinit source t _ _ hrun)).nodes_kept
  split
  · exact unexpected_traced _ source u
  · apply TracedAt.pushFrom
    refine ⟨kindIn_test_stable rfl htype.2 hkept, fun values hvalues => ?_⟩
    cases hvalues
    obtain ⟨v, hvalues⟩ := optional_eq_some hrun
    exact (hp.arrayInitializer hvalues).2

theorem creation_traced (scope : Option NodeId) (origin : Nat) :
    Traced 0 (creation p scope origin) := by
  refine Traced.token rfl ?_
  intro source s
  refine .bind (nonArrayType_traced hp source s) fun type t htype => ?_
  rw [tracedAt_check]
  split
  · exact arrayCreation_traced hp (nonArrayType_isType source s type t htype) origin
  · refine Traced.bind (arguments_traced hp) (fun found => ?_) source t
    apply Traced.bind (optional_traced (check_traced _) (classBody_traced hp))
    intro body
    exact pushFrom_traced rfl _

/-! ### Primary expressions -/

theorem namePrimary_traced {name : String} (hkind : kindAt s.rest 0 = .identifier name) :
    TracedAt source s 0 (namePrimary p name) := by
  unfold namePrimary
  rw [tracedAt_start, tracedAt_ahead]
  dsimp only
  split
  · exact classLiteral_traced (hp.traced _) source s
  · split
    · exact hp.traced _ source s
    · refine .advance (isParen_of_eq hkind rfl) ?_
      refine Traced.branch (check_traced _) ?_ (pushFrom_traced rfl _)
      exact Traced.bind (arguments_traced hp) fun found => pushFrom_traced rfl _

theorem primitivePrimary_traced {word : Keyword} (hkind : kindAt s.rest 0 = .keyword word) :
    TracedAt source s 0 (primitivePrimary p word) := by
  unfold primitivePrimary
  rw [tracedAt_start, tracedAt_ahead]
  dsimp only
  split
  · exact classLiteral_traced (hp.traced _) source s
  · split
    · exact hp.traced _ source s
    · exact .advance (isParen_of_eq hkind rfl) (pushFrom_traced rfl _)

theorem primary_traced : Traced 0 (primary p) := by
  intro source s
  unfold primary
  rw [tracedAt_start, tracedAt_peek]
  split
  · next form hform =>
    exact .advance (isParen_of_read rfl rfl hform)
      (pushFrom_traced (singleton?_isCompound hform) _)
  · split
    · next raw hraw => exact template_traced hp hraw
    · exact creation_traced hp none _ source s
    · exact classLiteral_traced (typeOrVoid_traced hp) source s
    · next word _ _ hword =>
      split
      · exact primitivePrimary_traced hp hword
      · exact unexpected_traced _ source s
    · next name hname => exact namePrimary_traced hp hname
    · next hparen =>
      refine .opening hparen ?_
      refine Traced.bind (hp.traced _) fun inner => ?_
      exact Traced.closing (pushFrom_traced rfl _)
    · exact jsonObject_traced hp source s
    · exact jsonArray_traced hp source s
    · exact tag_traced hp source s
    · exact unexpected_traced _ source s

/-! ### Operators after an expression -/

theorem member_traced (scope : NodeId) (origin : Nat) : Traced 0 (member p scope origin) := by
  intro source s
  unfold member
  rw [tracedAt_peek]
  split
  · refine Traced.bind (typeArguments_traced hp) (fun types => ?_) source s
    apply Traced.bind (identifier_traced _)
    intro name
    exact Traced.bind (arguments_traced hp) fun found => pushFrom_traced rfl _
  · next name hname =>
    refine .advance (isParen_of_eq hname rfl) ?_
    refine Traced.branch (check_traced _) ?_ (pushFrom_traced rfl _)
    exact Traced.bind (arguments_traced hp) fun found => pushFrom_traced rfl _
  · next hthis => exact .advance (isParen_of_eq hthis rfl) (pushFrom_traced rfl _)
  · next hsuper => exact .advance (isParen_of_eq hsuper rfl) (pushFrom_traced rfl _)
  · exact creation_traced hp (some scope) origin source s
  · exact unexpected_traced _ source s

theorem suffix_traced (origin : Nat) (id : NodeId) : Traced 0 (suffix p origin id) := by
  intro source s
  unfold suffix
  rw [tracedAt_peek]
  split
  · next hdot => exact .advance (isParen_of_eq hdot rfl) (Traced.map (member_traced hp id origin))
  · next hbracket =>
    refine .advance (isParen_of_eq hbracket rfl) ?_
    apply Traced.bind (hp.traced _)
    intro index
    exact Traced.token rfl (Traced.map (pushFrom_traced rfl _))
  · next hcolons =>
    refine .advance (isParen_of_eq hcolons rfl) ?_
    exact Traced.bind referenceName_traced fun name => Traced.map (pushFrom_traced rfl _)
  · next hplus => exact .advance (isParen_of_eq hplus rfl) (Traced.map (pushFrom_traced rfl _))
  · next hminus => exact .advance (isParen_of_eq hminus rfl) (Traced.map (pushFrom_traced rfl _))
  · exact Traced.pure none source s

theorem suffixed_traced : Traced 0 (suffixed p) := by
  apply Traced.bind start_traced
  intro origin
  exact Traced.bind (primary_traced hp) fun first => extend_traced (suffix_traced hp origin) first

/-! ### Operators before and between expressions -/

/-- An operand, and the node that is made of it. -/
theorem operand_traced {form : NodeId → NodeKind} (hform : ∀ nodes operand,
      (kindIn nodes operand).isPlain = true → (form operand).IsGrouped nodes) (origin : Nat) :
    Traced 0 (nested (p .unary) >>= fun operand => pushFrom origin (form operand)) := by
  intro source s
  refine .bind (nested_traced (hp.traced _) source s) fun operand t hrun => ?_
  have hunary : MakesForm NodeKind.isPlain (p .unary) := fun _ _ _ _ h => hp.unary h
  exact .pushFrom (hform _ _ (hunary.nested source s operand t hrun).2) _

theorem unary_traced : Traced 0 (unary p) := by
  intro source s
  unfold unary
  rw [tracedAt_start, tracedAt_peek]
  split
  · next op hop =>
    refine .advance (isParen_of_read rfl rfl hop) ?_
    apply operand_traced hp
    exact fun _ _ hplain _ => hplain
  · rw [tracedAt_ahead]
    split
    · next hcast =>
      refine .opening (eq_of_beq (Bool.and_eq_true_iff.1 hcast).1) ?_
      refine Traced.bind (hp.traced _) fun type => ?_
      apply Traced.closing
      apply operand_traced hp
      exact fun _ _ hplain => hplain
    · exact suffixed_traced hp source s

theorem conditional_traced : Traced 0 (conditional p) := by
  apply Traced.bind start_traced
  intro origin
  apply Traced.bind (hp.traced _)
  intro condition
  refine Traced.branch (accept_traced rfl) ?_ (.pure condition)
  apply Traced.bind (hp.traced _)
  intro yes
  refine Traced.token rfl ?_
  apply Traced.bind ahead_traced
  intro tokens
  split
  · exact Traced.bind (lambda_traced hp) fun no => pushFrom_traced rfl _
  · exact Traced.bind (nested_traced (hp.traced _)) fun no => pushFrom_traced rfl _

theorem expression_traced : Traced 0 (expression p) := by
  apply nested_traced
  apply Traced.bind ahead_traced
  intro tokens
  split
  · exact lambda_traced hp
  · apply Traced.bind start_traced
    intro origin
    apply Traced.bind (hp.traced _)
    intro target source s
    rw [tracedAt_ahead]
    split
    · next op count hassignment =>
      obtain ⟨⟨symbol, signs⟩, hoperator, hop⟩ := Option.bind_eq_some_iff.1 hassignment
      obtain ⟨found, -, hfound⟩ := Option.bind_eq_some_iff.1 hop
      cases hfound
      refine .bind (advanceBy_traced (operatorAhead?_isParen hoperator)) fun _ t _ => ?_
      exact Traced.bind (hp.traced _) (fun value => pushFrom_traced rfl _) source t
    · exact Traced.pure target source s

end

end CodeMarkup.Grammar
