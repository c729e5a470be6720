import CodeMarkup.Grammar.Entry
import CodeMarkup.Proofs.Traces.Declarations

namespace CodeMarkup

/-!
# Traces of statements and of the grammar

* `NodeKind.isKeywordStmt`, `FormsStatement`: the forms of statements that a keyword introduces.
* `keywordStmt?_traced`, `keywordStmt?_formsStatement`: statements that a keyword introduces, from
  that keyword on.
* `statement_traced`: all statements.
* `derive_traced`, `EntryPoint.production_traced`: all productions of the grammar.
-/

open Parser

/-- Whether a form is a statement that a keyword introduces. -/
def NodeKind.isKeywordStmt : NodeKind → Bool
  | .ifStmt _ _ _ | .whileStmt _ _ | .doStmt _ _ | .forStmt _ _ _ _ | .forEachStmt _ _ _
  | .returnStmt _ | .breakStmt _ | .continueStmt _ | .throwStmt _ | .tryStmt _ _ _ _
  | .switchStmt _ _ | .synchronizedStmt _ _ | .assertStmt _ _ | .constructorCall _ _ => true
  | _ => false

theorem NodeKind.isCompound_of_isKeywordStmt {kind : NodeKind} (h : kind.isKeywordStmt = true) :
    kind.isCompound = false := by
  cases kind <;> first | rfl | cases h

namespace Grammar

variable {p : Productions} {source : Source} {s : State}

theorem jumpLabel_traced (hkind : (kindAt s.rest 0).isParen = false) :
    TracedAt source s 0 jumpLabel := by
  refine .advance hkind ?_
  refine Traced.bind (optional_traced (traced_of_reads fun _ _ => ⟨_, rfl⟩) (identifier_traced _))
    fun label => ?_
  exact Traced.token rfl (.pure label)

section

variable (hp : p.Traced)

include hp

theorem parenthesized_traced : Traced 0 (parenthesized p) := by
  apply Traced.opening
  apply Traced.bind (hp.traced _)
  intro inner
  exact Traced.closing (.pure inner)

theorem variablesOrExpression_traced : Traced 0 (variablesOrExpression p) := by
  apply Traced.bind ahead_traced
  intro tokens
  split
  · exact localVariables_traced hp
  · exact hp.traced _

theorem expressionList_traced : Traced 0 (expressionList p) :=
  commaSeparated_traced (hp.traced _)

/-! ### Loops and branches -/

theorem ifStmt_traced : Traced 0 (ifStmt p) := by
  refine Traced.token rfl ?_
  apply Traced.bind (parenthesized_traced hp)
  intro condition
  apply Traced.bind (hp.traced _)
  intro yes
  exact Traced.bind (optional_traced (accept_traced rfl) (hp.traced _)) fun no => .pure _

theorem whileStmt_traced (hkind : (kindAt s.rest 0).isParen = false) :
    TracedAt source s 0 (whileStmt p) := by
  refine .advance hkind ?_
  apply Traced.bind (parenthesized_traced hp)
  intro condition
  exact Traced.bind (hp.traced _) fun body => .pure _

theorem doStmt_traced (hkind : (kindAt s.rest 0).isParen = false) :
    TracedAt source s 0 (doStmt p) := by
  refine .advance hkind ?_
  apply Traced.bind (hp.traced _)
  intro body
  refine Traced.token rfl ?_
  apply Traced.bind (parenthesized_traced hp)
  intro condition
  exact Traced.token rfl (.pure _)

/-- The rest of a header closes its parenthesis. -/
theorem forRest_traced (init : List NodeId) : Traced 1 (forRest p init) := by
  refine Traced.token rfl ?_
  apply Traced.bind (optional_traced (notAt_traced _) (hp.traced _))
  intro compare
  refine Traced.token rfl ?_
  apply Traced.bind (optionalList_traced (notAt_traced _) (expressionList_traced hp))
  intro update
  apply Traced.closing
  exact Traced.bind (hp.traced _) fun body => .pure _

theorem forStmt_traced : Traced 0 (forStmt p) := by
  refine Traced.token rfl ?_
  apply Traced.opening
  apply Traced.bind ahead_traced
  intro tokens
  split
  · apply Traced.bind (localVariables_traced hp)
    intro declared
    refine Traced.branch (accept_traced rfl) ?_ (forRest_traced hp [declared])
    apply Traced.bind (hp.traced _)
    intro iterable
    apply Traced.closing
    exact Traced.bind (hp.traced _) fun body => .pure _
  · apply Traced.bind (optionalList_traced (notAt_traced _) (expressionList_traced hp))
    intro init
    exact forRest_traced hp init

/-! ### Transfers -/

theorem returnStmt_traced (hkind : (kindAt s.rest 0).isParen = false) :
    TracedAt source s 0 (returnStmt p) := by
  refine .advance hkind ?_
  apply Traced.bind (optional_traced (notAt_traced _) (hp.traced _))
  intro expression
  exact Traced.token rfl (.pure _)

theorem throwStmt_traced (hkind : (kindAt s.rest 0).isParen = false) :
    TracedAt source s 0 (throwStmt p) := by
  refine .advance hkind ?_
  apply Traced.bind (hp.traced _)
  intro expression
  exact Traced.token rfl (.pure _)

/-! ### Handlers, switches and locks -/

theorem catchParameter_traced : Traced 0 (catchParameter p) := by
  apply Traced.bind (modifiers_traced hp)
  intro front
  apply Traced.bind start_traced
  intro typeStart
  apply Traced.bind (hp.traced _)
  intro first
  refine Traced.bind (many_traced (accept_traced rfl) (hp.traced _)) fun others => ?_
  -- the name, after one type or after a union of them
  have hrest : ∀ type : NodeId, Traced 0
      (identifier "parameter name" >>= fun name => pushModified front
        (.parameterDecl front.annotations front.keywords (some type) false name)) := by
    intro type
    exact Traced.bind (identifier_traced _) fun name => pushModified_traced rfl _
  dsimp only
  split
  · exact hrest first
  · exact Traced.bind (pushFrom_traced rfl _) hrest

theorem catchClause_traced (hkind : (kindAt s.rest 0).isParen = false) :
    TracedAt source s 0 (catchClause p) := by
  unfold catchClause
  rw [tracedAt_start]
  refine .advance hkind ?_
  apply Traced.opening
  apply Traced.bind (catchParameter_traced hp)
  intro parameter
  apply Traced.closing
  exact Traced.bind (block_traced hp) fun body => pushFrom_traced rfl _

theorem resources_traced : Traced 1 (resources p) := by
  refine Traced.bind (listUntil_traced rfl (variablesOrExpression_traced hp)) fun found => ?_
  exact Traced.closing (.pure _)

theorem tryStmt_traced : Traced 0 (tryStmt p) := by
  refine Traced.token rfl ?_
  have hresources : Traced 0 (optionalList (accept .leftParen) (resources p)) :=
    Traced.acceptOpening (resources_traced hp) (.pure [])
  refine Traced.bind hresources fun found => ?_
  apply Traced.bind (block_traced hp)
  intro tryBlock
  refine Traced.manyWhile (fun s => s.current.kind == .keyword .kwCatch) (fun _ _ => rfl) ?_ ?_
  · intro source s hcatch
    rw [← s.kindAt_rest_zero] at hcatch
    exact catchClause_traced hp (isParen_of_beq hcatch rfl)
  · intro clauses source s _
    refine Traced.bind (optional_traced (accept_traced rfl) (block_traced hp))
      (fun finallyBlock => ?_) source s
    split
    · exact unexpected_traced _
    · exact .pure _

theorem switchLabel_traced : Traced 0 (switchLabel p) := by
  refine Traced.branch (accept_traced rfl) (Traced.map (hp.traced _)) ?_
  exact Traced.branch (accept_traced rfl) (.pure none) (unexpected_traced _)

theorem switchEntry_traced : Traced 0 (switchEntry p) := by
  apply Traced.bind start_traced
  intro origin
  apply Traced.bind (switchLabel_traced hp)
  intro label
  refine Traced.token rfl ?_
  refine Traced.bind (many_traced (traced_of_reads fun _ _ => ⟨_, rfl⟩) ?_)
    fun statements => pushFrom_traced rfl _
  exact Traced.branch atEnd_traced (unexpected_traced _) (hp.traced _)

theorem switchStmt_traced : Traced 0 (switchStmt p) := by
  refine Traced.token rfl ?_
  apply Traced.bind (parenthesized_traced hp)
  intro selector
  refine Traced.token rfl ?_
  apply Traced.bind (many_traced (notAt_traced _) (switchEntry_traced hp))
  intro entries
  exact Traced.token rfl (.pure _)

theorem synchronizedStmt_traced (hkind : (kindAt s.rest 0).isParen = false) :
    TracedAt source s 0 (synchronizedStmt p) := by
  refine .advance hkind ?_
  apply Traced.bind (parenthesized_traced hp)
  intro lock
  exact Traced.bind (block_traced hp) fun body => .pure _

theorem assertStmt_traced (hkind : (kindAt s.rest 0).isParen = false) :
    TracedAt source s 0 (assertStmt p) := by
  refine .advance hkind ?_
  apply Traced.bind (hp.traced _)
  intro condition
  refine Traced.bind (optional_traced (accept_traced rfl) (hp.traced _)) fun message => ?_
  exact Traced.token rfl (.pure _)

theorem constructorCall_traced {isThis : Bool} (hkind : (kindAt s.rest 0).isParen = false) :
    TracedAt source s 0 (constructorCall p isThis) := by
  refine .advance hkind ?_
  apply Traced.bind (arguments_traced hp)
  intro found
  exact Traced.token rfl (.pure _)

end

/-! ### Forms of statements -/

/-- A computation that yields the form of a statement with a keyword. -/
def FormsStatement (x : Parser NodeKind) : Prop :=
  ∀ source s kind t, x source s = .ok kind t → kind.isKeywordStmt = true

namespace FormsStatement

/-- Only the last part of a sequence matters. -/
theorem bind {α : Type} {x : Parser α} {f : α → Parser NodeKind}
    (hf : ∀ a, FormsStatement (f a)) : FormsStatement (x >>= f) := by
  intro source s kind t h
  obtain ⟨a, u, -, hrest⟩ := bind_eq_ok h
  exact hf a source u kind t hrest

theorem pure {kind : NodeKind} (hkind : kind.isKeywordStmt = true) :
    FormsStatement (pure kind) := by
  intro source s found t h
  cases h
  exact hkind

theorem unexpected (expected : String) : FormsStatement (unexpected expected) := by
  intro source s kind t h
  cases h

end FormsStatement

theorem forRest_formsStatement (init : List NodeId) : FormsStatement (forRest p init) :=
  .bind fun _ => .bind fun _ => .bind fun _ => .bind fun _ => .bind fun _ => .bind fun _ =>
    .pure rfl

theorem forStmt_formsStatement : FormsStatement (forStmt p) := by
  refine .bind fun _ => .bind fun _ => .bind fun tokens => ?_
  split
  · refine .bind fun declared => .bind fun overElements => ?_
    split
    · exact .bind fun _ => .bind fun _ => .bind fun _ => .pure rfl
    · exact forRest_formsStatement _
  · exact .bind fun init => forRest_formsStatement init

theorem tryStmt_formsStatement : FormsStatement (tryStmt p) := by
  refine .bind fun _ => .bind fun _ => .bind fun _ => .bind fun _ => .bind fun _ => ?_
  split
  · exact .unexpected _
  · exact .pure rfl

theorem keywordStmt?_formsStatement {word : Keyword} {next : TokenKind} {body : Parser NodeKind}
    (hbody : keywordStmt? p word next = some body) : FormsStatement body := by
  cases word with
  | kwIf =>
    cases hbody
    exact .bind fun _ => .bind fun _ => .bind fun _ => .bind fun _ => .pure rfl
  | kwDo =>
    cases hbody
    exact .bind fun _ => .bind fun _ => .bind fun _ => .bind fun _ => .bind fun _ => .pure rfl
  | kwFor =>
    cases hbody
    exact forStmt_formsStatement
  | kwTry =>
    cases hbody
    exact tryStmt_formsStatement
  | kwSwitch =>
    cases hbody
    exact .bind fun _ => .bind fun _ => .bind fun _ => .bind fun _ => .bind fun _ => .pure rfl
  | kwAssert =>
    cases hbody
    exact .bind fun _ => .bind fun _ => .bind fun _ => .bind fun _ => .pure rfl
  | kwBreak | kwContinue =>
    cases hbody
    exact .bind fun _ => .pure rfl
  | kwWhile | kwReturn | kwThrow =>
    cases hbody
    exact .bind fun _ => .bind fun _ => .bind fun _ => .pure rfl
  | kwSynchronized | kwThis | kwSuper =>
    simp only [keywordStmt?] at hbody
    split at hbody
    · cases hbody
      exact .bind fun _ => .bind fun _ => .bind fun _ => .pure rfl
    · cases hbody
  | _ => cases hbody

/-! ### All statements -/

section

variable (hp : p.Traced)

include hp

/-- A statement that a keyword introduces, where that keyword is the next token. -/
theorem keywordStmt?_traced {word : Keyword} {next : TokenKind} {body : Parser NodeKind}
    (hbody : keywordStmt? p word next = some body) (hkind : (kindAt s.rest 0).isParen = false) :
    TracedAt source s 0 body := by
  cases word with
  | kwIf =>
    cases hbody
    exact ifStmt_traced hp source s
  | kwWhile =>
    cases hbody
    exact whileStmt_traced hp hkind
  | kwDo =>
    cases hbody
    exact doStmt_traced hp hkind
  | kwFor =>
    cases hbody
    exact forStmt_traced hp source s
  | kwReturn =>
    cases hbody
    exact returnStmt_traced hp hkind
  | kwBreak | kwContinue =>
    cases hbody
    exact .bind (jumpLabel_traced hkind) fun label t _ => Traced.pure _ source t
  | kwThrow =>
    cases hbody
    exact throwStmt_traced hp hkind
  | kwTry =>
    cases hbody
    exact tryStmt_traced hp source s
  | kwSwitch =>
    cases hbody
    exact switchStmt_traced hp source s
  | kwSynchronized =>
    simp only [keywordStmt?] at hbody
    split at hbody
    · cases hbody
      exact synchronizedStmt_traced hp hkind
    · cases hbody
  | kwAssert =>
    cases hbody
    exact assertStmt_traced hp hkind
  | kwThis | kwSuper =>
    simp only [keywordStmt?] at hbody
    split at hbody
    · cases hbody
      exact constructorCall_traced hp hkind
    · cases hbody
  | _ => cases hbody

theorem plainStmt_traced (origin : Nat) : Traced 0 (plainStmt p origin) := by
  apply Traced.bind ahead_traced
  intro tokens
  split
  · apply Traced.bind (modifiers_traced hp)
    intro front
    exact Traced.bind (typeDeclaration_traced hp) fun declaration => pushFrom_traced rfl _
  · apply Traced.bind (variablesOrExpression_traced hp)
    intro expression
    exact Traced.token rfl (pushFrom_traced rfl _)

theorem statement_traced : Traced 0 (statement p) := by
  apply nested_traced
  intro source s
  rw [tracedAt_start, tracedAt_peek, tracedAt_peek]
  split
  · exact block_traced hp source s
  · next hsemicolon => exact .advance (isParen_of_eq hsemicolon rfl) (pushFrom_traced rfl _)
  · next label hlabel =>
    split
    · next hcolon =>
      refine .advanceTwo (isParen_of_eq hlabel rfl) (isParen_of_beq hcolon rfl) ?_
      exact Traced.bind (hp.traced _) fun inner => pushFrom_traced rfl _
    · exact plainStmt_traced hp _ source s
  · next word hword =>
    split
    · next body hbody =>
      refine .bind (keywordStmt?_traced hp hbody (isParen_of_eq hword rfl)) fun kind t hrun => ?_
      have hkeyword := keywordStmt?_formsStatement hbody source s kind t hrun
      exact pushFrom_traced (NodeKind.isCompound_of_isKeywordStmt hkeyword) _ source t
    · exact plainStmt_traced hp _ source s
  · exact plainStmt_traced hp _ source s

/-! ### The grammar -/

/-- Productions over others that leave traces leave traces. -/
theorem step_traced : Productions.Traced (step p) where
  traced construct := by
    cases construct with
    | expression => exact expression_traced hp
    | conditional => exact conditional_traced hp
    | binary power => exact fun source s id t h => (binary_run hp h).1
    | unary => exact unary_traced hp
    | statement => exact statement_traced hp
    | type => exact type_traced hp
    | elementValue => exact elementValue_traced hp
    | arrayInitializer => exact arrayInitializer_traced hp
    | bodyDeclaration => exact bodyDeclaration_traced hp
  operand h := (binary_run hp h).2
  type h := type_isType _ _ _ _ h
  unary h := unary_plain hp _ _ _ _ h
  arrayInitializer h := arrayInitializer_form _ _ _ _ h

end

/-- **All productions of the grammar leave traces.** -/
theorem derive_traced (fuel : Nat) : Productions.Traced (derive fuel) := by
  induction fuel with
  | zero => constructor <;> nofun
  | succ fuel ih => exact step_traced ih

end Grammar

theorem EntryPoint.production_traced {p : Productions} (hp : p.Traced) (entry : EntryPoint) :
    Traced 0 (entry.production p) := by
  cases entry with
  | compilationUnit => exact Grammar.compilationUnit_traced hp
  | block => exact Grammar.block_traced hp
  | statement => exact hp.traced _
  | type => exact Grammar.typeOrVoid_traced hp
  | expression => exact hp.traced _
  | importDeclaration => exact Grammar.importDeclaration_traced
  | annotationUse => exact Grammar.annotationUse_traced hp
  | bodyDeclaration => exact hp.traced _
  | tag => exact Grammar.tag_traced hp
  | json => exact Grammar.jsonDocument_traced hp

end CodeMarkup
