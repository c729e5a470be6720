import CodeMarkup.Proofs.Lookahead.Types
import CodeMarkup.Proofs.Progress.Scans
import CodeMarkup.Proofs.Progress.Statements
import CodeMarkup.Proofs.Trivia.Insensitivity

namespace CodeMarkup

open Parser

/-!
# Progress of all productions

Of eight productions that are nested in each other at least one takes a token or goes into a
template, so that fuel for eight times the weight of what is left is enough.

* `Grammar.IsProduction`: the productions of constructs that start at the token at hand.
* `Grammar.derive_supplies`: fuel in proportion to what is left suffices.
* `Grammar.production_progress`: every production takes a token and only adds nodes, and no bound is
  met on the way.
-/

variable {full : Prop} {p : Productions} {source : Source} {s t : State}

/-- `t` has the tokens of `s`, and the nodes that `s` has are as they were. -/
structure State.Preserves (s t : State) : Prop where
  tokens_eq : t.cursor.tokens = s.cursor.tokens
  nodes_eq : ∀ id < s.nodes.size, t.nodes[id]? = s.nodes[id]?

theorem State.Grows.preserves (h : s.Grows t) : s.Preserves t :=
  ⟨h.tokens_eq, fun _ hid => h.getElem?_eq hid⟩

/-- What a computation that goes on leaves behind. -/
theorem Parser.Moves.preserves {α : Type} {x : Parser α} {Q : α → State → Prop}
    (h : Moves full source s x Q) :
    match x source s with
    | .ok a t => Q a t ∧ t.cursor.index < t.cursor.tokens.length ∧ s.Preserves t
    | .error error t => s.Preserves t ∧ (full → error.fault ≠ .exhausted) := by
  unfold Moves at h
  cases hresult : x source s with
  | ok a t =>
    rw [hresult] at h
    exact ⟨h.2, t.cursor_isInRange.index_lt, h.1.preserves⟩
  | error error t =>
    rw [hresult] at h
    exact ⟨h.1.preserves, h.2⟩

theorem Nonterminal.rank_lt (construct : Nonterminal) : construct.rank < 8 := by
  cases construct <;> exact Nat.lt_of_sub_eq_succ rfl

namespace Grammar

theorem step_builds (construct : Nonterminal) (hp : Supplies full p source s construct.rank) :
    Moves full source s (step p construct) (Builds s) := by
  cases construct with
  | expression => exact expression_builds hp
  | conditional => exact conditional_builds hp
  | binary power => exact binary_builds hp
  | unary => exact unary_builds hp
  | statement => exact statement_builds hp
  | type => exact type_builds hp
  | elementValue => exact elementValue_builds hp
  | arrayInitializer => exact arrayInitializer_builds hp
  | bodyDeclaration => exact bodyDeclaration_builds hp

/-- **Fuel for what is left.**  A production that calls another one without taking a token calls one
    of a lower rank; any other call has less left. -/
theorem derive_supplies (fuel rank : Nat) (henough : full → 8 * s.weight + rank ≤ fuel) :
    Supplies full (derive fuel) source s rank := by
  induction fuel generalizing s rank with
  | zero =>
    intro construct t hless
    refine ⟨.refl t, fun hfull => ?_⟩
    -- nothing is left, and no rank is lower
    have hzero := henough hfull
    omega
  | succ fuel ih =>
    intro construct t hless
    refine step_builds construct (ih construct.rank fun hfull => ?_)
    have hless' := henough hfull
    have hrank := construct.rank_lt
    omega

/-! ### Productions -/

/-- The productions that parse a construct from the token at hand on, whose kind is `next`.  Some
    take that token unseen, and are called only if it is the one they begin with. -/
inductive IsProduction (p : Productions) (next : TokenKind) : {α : Type} → Parser α → Prop
  /-- Expressions of every level down to operands, statements, types, the values of annotations and
      arrays, and members. -/
  | construct (construct : Nonterminal) : IsProduction p next (p construct)
  -- expressions
  | suffixed : IsProduction p next (suffixed p)
  | primary : IsProduction p next (primary p)
  | name (name : String) (h : next = .identifier name) : IsProduction p next (namePrimary p name)
  | primitive (word : Keyword) (h : next = .keyword word) :
      IsProduction p next (primitivePrimary p word)
  | classLiteral : IsProduction p next (classLiteral (typeOrVoid p))
  | creation (scope : Option NodeId) (origin : Nat) : IsProduction p next (creation p scope origin)
  | lambda : IsProduction p next (lambda p)
  | lambdaParameter : IsProduction p next (lambdaParameter p)
  | arguments : IsProduction p next (arguments p)
  -- markup
  | tag : IsProduction p next (tag p)
  | tagAttribute : IsProduction p next (tagAttribute p)
  | markupName (expected : String) : IsProduction p next (markupName expected)
  | jsonKey : IsProduction p next jsonKey
  | jsonObject : IsProduction p next (jsonObject p)
  | jsonArray : IsProduction p next (jsonArray p)
  | jsonDocument : IsProduction p next (jsonDocument p)
  | template (raw : String) (h : next = .template raw) : IsProduction p next (template p raw)
  -- statements
  | block : IsProduction p next (block p)
  | keywordStmt {word : Keyword} {after : TokenKind} {body : Parser NodeKind}
      (h : next = .keyword word) (hbody : keywordStmt? p word after = some body) :
      IsProduction p next body
  | catchClause : IsProduction p next (catchClause p)
  | catchParameter : IsProduction p next (catchParameter p)
  | switchEntry : IsProduction p next (switchEntry p)
  | parenthesized : IsProduction p next (parenthesized p)
  | localVariables : IsProduction p next (localVariables p)
  | declarator : IsProduction p next (declarator p)
  -- types
  | typeOrVoid : IsProduction p next (typeOrVoid p)
  | nonArrayType : IsProduction p next (nonArrayType p)
  | classType : IsProduction p next (classType p)
  | typeArgument : IsProduction p next (typeArgument p)
  | typeArguments : IsProduction p next (typeArguments p)
  | typeParameter : IsProduction p next (typeParameter p)
  | typeParameters : IsProduction p next (typeParameters p)
  | typeList : IsProduction p next (typeList p)
  -- declarations
  | annotationUse : IsProduction p next (annotationUse p)
  | memberValue : IsProduction p next (memberValue p)
  | elementValueArray : IsProduction p next (elementValueArray p)
  | qualifiedName : IsProduction p next qualifiedName
  | packageDeclaration : IsProduction p next (packageDeclaration p)
  | importDeclaration : IsProduction p next importDeclaration
  | typeDeclaration (front : Modifiers) : IsProduction p next (typeDeclaration p front)
  | classDeclaration (front : Modifiers) (isInterface : Bool) :
      IsProduction p next (classDeclaration p front isInterface)
  | enumDeclaration (front : Modifiers) : IsProduction p next (enumDeclaration p front)
  | enumConstant : IsProduction p next (enumConstant p)
  | classBody : IsProduction p next (classBody p)
  | constructorDeclaration (front : Modifiers) (typeParams : List NodeId) :
      IsProduction p next (constructorDeclaration p front typeParams)
  | methodOrField (front : Modifiers) (typeParams : List NodeId) :
      IsProduction p next (methodOrField p front typeParams)
  | parameters : IsProduction p next (parameters p)
  | parameter : IsProduction p next (parameter p)

theorem IsProduction.moves {α : Type} {x : Parser α} (h : IsProduction p s.current.kind x)
    (hp : Supplies full p source s 8) : Moves full source s x fun _ => s.Took := by
  have hone : Supplies full p source s 1 := hp.mono (by decide)
  cases h with
  | construct construct => exact hp.took construct.rank_lt
  | suffixed => exact (suffixed_builds hone).took
  | primary => exact (primary_builds hone).took
  | name name h => exact (namePrimary_builds hone (s.kindAt_rest_zero.trans h)).took
  | primitive word h => exact (primitivePrimary_builds hone (s.kindAt_rest_zero.trans h)).took
  | classLiteral => exact (classLiteral_builds (typeOrVoid_builds hone)).took
  | creation scope origin => exact (creation_builds hp.low (.refl s)).took
  | lambda => exact (lambda_builds hone).took
  | lambdaParameter => exact (lambdaParameter_builds hone).took
  | arguments => exact arguments_took hp.low
  | tag => exact (tag_builds hp.low).took
  | tagAttribute => exact (tagAttribute_builds hp.low).took
  | markupName expected => exact markupName_took
  | jsonKey => exact jsonKey_builds.mono fun _ _ _ h => h.toTook
  | jsonObject => exact (jsonObject_builds hp.low).took
  | jsonArray => exact (jsonArray_builds hp.low).took
  | jsonDocument => exact (jsonDocument_builds hp.low).took
  | template raw h => exact (template_builds hp h).took
  | block => exact (block_builds hp.low).took
  | keywordStmt h hbody =>
    exact keywordStmt?_took hp.low (State.rest_ne_nil_of_kind (by simp) h) hbody
  | catchClause => exact (catchClause_builds hp.low).took
  | catchParameter => exact (catchParameter_builds hone).took
  | switchEntry => exact (switchEntry_builds hp.low).took
  | parenthesized => exact parenthesized_took hp.low
  | localVariables => exact (localVariables_builds hone).took
  | declarator => exact (declarator_builds hp.low).took
  | typeOrVoid => exact (typeOrVoid_builds hone).took
  | nonArrayType => exact (nonArrayType_builds hp.low).took
  | classType => exact (classType_builds hp.low).took
  | typeArgument => exact (typeArgument_builds hone).took
  | typeArguments => exact typeArguments_took hp.low
  | typeParameter => exact (typeParameter_builds hp.low).took
  | typeParameters => exact typeParameters_took hp.low
  | typeList => exact typeList_took hone
  | annotationUse => exact (annotationUse_builds hp.low).took
  | memberValue => exact (memberValue_builds hp.low).took
  | elementValueArray => exact (elementValueArray_builds hp.low).took
  | qualifiedName => exact qualifiedName_builds.took
  | packageDeclaration => exact (packageDeclaration_builds hp.low).took
  | importDeclaration => exact importDeclaration_builds.took
  | typeDeclaration front => exact (typeDeclaration_builds hp.low).took
  | classDeclaration front isInterface => exact (classDeclaration_builds hp.low).took
  | enumDeclaration front => exact (enumDeclaration_builds hp.low).took
  | enumConstant => exact (enumConstant_builds hp.low).took
  | classBody => exact classBody_took hp.low
  | constructorDeclaration front typeParams =>
    exact (constructorDeclaration_builds hp.low).took
  | methodOrField front typeParams => exact (methodOrField_builds hone).took
  | parameters => exact parameters_took hp.low
  | parameter => exact (parameter_builds hone).took

/-- Entry points go on, be it without a token. -/
theorem entry_moves (entry : EntryPoint) (hp : Supplies full p source s 8) :
    Moves full source s (entry.production p) fun _ _ => True := by
  have hproduction : ∀ {x : Parser NodeId}, IsProduction p s.current.kind x →
      Moves full source s x fun _ _ => True := fun h => (h.moves hp).any
  cases entry with
  | compilationUnit => exact (compilationUnit_moves hp.low).any
  | block => exact hproduction .block
  | statement => exact hproduction (.construct .statement)
  | type => exact hproduction .typeOrVoid
  | expression => exact hproduction (.construct .expression)
  | importDeclaration => exact hproduction .importDeclaration
  | annotationUse => exact hproduction .annotationUse
  | bodyDeclaration => exact hproduction (.construct .bodyDeclaration)
  | tag => exact hproduction .tag
  | json => exact hproduction .jsonDocument

/-- **Progress.**  From every state, a production that succeeds has moved past at least one token to
    another token of the same list, and has only added nodes; one that fails has kept tokens and
    nodes as well.  So, with fuel for what is left, no production meets a bound, and neither does an
    entry point on any tokens, the lookahead for types, or the parse of any source. -/
theorem production_progress :
    (∀ {α : Type} (source : Source) (fuel : Nat) (s : State) (x : Parser α),
      IsProduction (derive fuel) s.current.kind x →
        match x source s with
        | .ok _ t => s.cursor.index < t.cursor.index
            ∧ t.cursor.index < t.cursor.tokens.length ∧ s.Preserves t
        | .error error t => s.Preserves t ∧ (8 * s.weight + 8 ≤ fuel → error.fault ≠ .exhausted)) ∧
    (∀ (source : Source) (entry : EntryPoint) (fuel : Nat) (s t : State) (error : ParseError),
      8 * s.weight + 8 ≤ fuel → entry.production (derive fuel) source s = .error error t →
        error.fault ≠ .exhausted) ∧
    (∀ (tokens : List Token) (fuel : Nat), 4 * tokens.length + 4 ≤ fuel →
      scanType fuel 0 tokens = scanType? tokens) ∧
    ∀ (source : Source) (entry : EntryPoint) (error : ParseError),
      source.parse entry = .error error → error.fault ≠ .exhausted := by
  have hsupplies : ∀ source fuel s,
      Supplies (8 * s.weight + 8 ≤ fuel) (derive fuel) source s 8 :=
    fun source fuel s => derive_supplies fuel 8 id
  refine ⟨fun source fuel s x hx => ?_, fun source entry fuel s t error hfuel herror => ?_,
    fun tokens fuel hfuel => scanType_eq_scanType? hfuel,
    fun source entry error h => Source.parse_ne_exhausted h⟩
  · have hmoves := hx.moves (hsupplies source fuel s)
    exact (hmoves.mono fun _ t _ ht => ht.index_lt).preserves
  · have hmoves := (entry_moves entry (hsupplies source fuel s)).preserves
    rw [herror] at hmoves
    exact hmoves.2 hfuel

/-- A template takes its token, and its interpolation, read from tokens of its own, leaves the
    tokens as they were. -/
theorem production_progress_template :
    ∃ id t, template (derive 48) "$\x7bb\x7d" (Source.ofText "`$\x7bb\x7d`")
        { rest := [⟨.template "$\x7bb\x7d", ⟨0, 6⟩⟩], stop := 6 } = .ok id t
      ∧ 0 < t.cursor.index
      ∧ t.cursor.tokens = [⟨.template "$\x7bb\x7d", ⟨0, 6⟩⟩, ⟨.eof, .point 6⟩]
      ∧ t.nodes.size = 2 := by
  obtain ⟨id, t, hrun, hsize⟩ : ∃ id t, template (derive 48) "$\x7bb\x7d"
      (Source.ofText "`$\x7bb\x7d`")
      { rest := [⟨.template "$\x7bb\x7d", ⟨0, 6⟩⟩], stop := 6 } = .ok id t
        ∧ t.nodes.size = 2 := exists_run_eq_ok (by decide +kernel)
  have hprogress := production_progress.1 (Source.ofText "`$\x7bb\x7d`") 48
    { rest := [⟨.template "$\x7bb\x7d", ⟨0, 6⟩⟩], stop := 6 } _ (.template _ rfl)
  rw [hrun] at hprogress
  exact ⟨id, t, hrun, hprogress.1, hprogress.2.2.tokens_eq, hsize⟩

end Grammar

end CodeMarkup
