import CodeMarkup.Grammar.Statements
import CodeMarkup.Proofs.Nesting.Declarations

namespace CodeMarkup.Grammar

open CodeMarkup.Parser

/-!
# Braces of statements

A statement opens a level, and at most one brace around the statements inside it.

* `keywordStmt?_closes`: statements that a keyword introduces, from that keyword on.
* `statement_fits`: all statements.
-/

variable {p : Productions} {source : Source} {s : State} {k c : Nat}

theorem jumpLabel_closes (hs : s.Allows source k c) (hkind : kindAt s.rest 0 ≠ .leftBrace) :
    ClosesAt source s k 0 jumpLabel := by
  refine .advance hs hkind ?_
  refine Closes.bind (optional_fits (fits_of_reads fun _ _ => ⟨_, rfl⟩) (identifier_fits _))
    fun label => ?_
  exact Closes.token nofun (.pure label)

section

variable (hp : p.Fit)

include hp

theorem parenthesized_fits : Fits c (parenthesized p) := by
  refine Closes.token nofun ?_
  apply Closes.bind hp.expression
  intro inner
  exact Closes.token nofun (.pure inner)

theorem variablesOrExpression_fits : Fits c (variablesOrExpression p) := by
  apply Closes.bind ahead_fits
  intro tokens
  split
  · exact localVariables_fits hp
  · exact hp.expression

theorem expressionList_fits : Fits c (expressionList p) :=
  commaSeparated_fits hp.expression

/-! ### Loops and branches -/

theorem ifStmt_fits : Fits c (ifStmt p) := by
  refine Closes.token nofun ?_
  apply Closes.bind (parenthesized_fits hp)
  intro condition
  apply Closes.bind hp.statement
  intro yes
  exact Closes.bind (optional_fits (accept_fits nofun) hp.statement) fun no => .pure _

theorem whileStmt_closes (hs : s.Allows source k c) (hkind : kindAt s.rest 0 ≠ .leftBrace) :
    ClosesAt source s k 0 (whileStmt p) := by
  refine .advance hs hkind ?_
  apply Closes.bind (parenthesized_fits hp)
  intro condition
  exact Closes.bind hp.statement fun body => .pure _

theorem doStmt_closes (hs : s.Allows source k c) (hkind : kindAt s.rest 0 ≠ .leftBrace) :
    ClosesAt source s k 0 (doStmt p) := by
  refine .advance hs hkind ?_
  apply Closes.bind hp.statement
  intro body
  refine Closes.token nofun ?_
  apply Closes.bind (parenthesized_fits hp)
  intro condition
  exact Closes.token nofun (.pure _)

theorem forRest_fits (init : List NodeId) : Fits c (forRest p init) := by
  refine Closes.token nofun ?_
  apply Closes.bind (optional_fits (notAt_fits _) hp.expression)
  intro compare
  refine Closes.token nofun ?_
  apply Closes.bind (optionalList_fits (notAt_fits _) (expressionList_fits hp))
  intro update
  refine Closes.token nofun ?_
  exact Closes.bind hp.statement fun body => .pure _

theorem forStmt_fits : Fits c (forStmt p) := by
  refine Closes.token nofun ?_
  refine Closes.token nofun ?_
  apply Closes.bind ahead_fits
  intro tokens
  split
  · apply Closes.bind (localVariables_fits hp)
    intro declared
    refine Closes.branch (accept_fits nofun) ?_ (forRest_fits hp [declared])
    apply Closes.bind hp.expression
    intro iterable
    refine Closes.token nofun ?_
    exact Closes.bind hp.statement fun body => .pure _
  · apply Closes.bind (optionalList_fits (notAt_fits _) (expressionList_fits hp))
    intro init
    exact forRest_fits hp init

/-! ### Transfers -/

theorem returnStmt_closes (hs : s.Allows source k c) (hkind : kindAt s.rest 0 ≠ .leftBrace) :
    ClosesAt source s k 0 (returnStmt p) := by
  refine .advance hs hkind ?_
  apply Closes.bind (optional_fits (notAt_fits _) hp.expression)
  intro expression
  exact Closes.token nofun (.pure _)

theorem throwStmt_closes (hs : s.Allows source k c) (hkind : kindAt s.rest 0 ≠ .leftBrace) :
    ClosesAt source s k 0 (throwStmt p) := by
  refine .advance hs hkind ?_
  apply Closes.bind hp.expression
  intro expression
  exact Closes.token nofun (.pure _)

/-! ### Handlers, switches and locks -/

theorem catchParameter_fits : Fits c (catchParameter p) := by
  apply Closes.bind (modifiers_fits hp)
  intro front
  apply Closes.bind start_fits
  intro typeStart
  apply Closes.bind hp.type
  intro first
  refine Closes.bind (many_fits (accept_fits nofun) hp.type) fun others => ?_
  -- the name, after one type or after a union of them
  have hrest : ∀ type : NodeId, Fits c
      (identifier "parameter name" >>= fun name => pushModified front
        (.parameterDecl front.annotations front.keywords (some type) false name)) := by
    intro type
    exact Closes.bind (identifier_fits _) fun name => pushModified_fits _ _
  dsimp only
  split
  · exact hrest first
  · exact Closes.bind (pushFrom_fits _ _) hrest

theorem catchClause_closes (hs : s.Allows source k (c + 1))
    (hkind : kindAt s.rest 0 ≠ .leftBrace) : ClosesAt source s k 0 (catchClause p) := by
  unfold catchClause
  rw [closesAt_start]
  refine .advance hs hkind ?_
  refine Closes.token nofun ?_
  apply Closes.bind (catchParameter_fits hp)
  intro parameter
  refine Closes.token nofun ?_
  exact Closes.bind (block_fits hp) fun body => pushFrom_fits _ _

theorem resources_fits : Fits c (resources p) := by
  refine Closes.bind (listUntil_fits nofun (variablesOrExpression_fits hp)) fun found => ?_
  exact Closes.token nofun (.pure _)

theorem tryStmt_fits : Fits (c + 1) (tryStmt p) := by
  refine Closes.token nofun ?_
  refine Closes.bind (optionalList_fits (accept_fits nofun) (resources_fits hp)) fun found => ?_
  apply Closes.bind (block_fits hp)
  intro tryBlock
  refine Closes.manyWhile (fun s => s.current.kind == .keyword .kwCatch) (fun _ _ => rfl) ?_ ?_
  · intro source s k hs hcatch
    refine catchClause_closes hp hs ?_
    rw [s.kindAt_rest_zero, eq_of_beq hcatch]
    nofun
  · intro clauses source s k hs _
    refine Closes.bind (optional_fits (accept_fits (by simp)) (block_fits hp))
      (fun finallyBlock => ?_) source s k hs
    split
    · exact unexpected_closes _
    · exact .pure _

theorem switchLabel_fits : Fits c (switchLabel p) := by
  refine Closes.branch (accept_fits nofun) (Closes.map hp.expression) ?_
  exact Closes.branch (accept_fits nofun) (.pure none) (unexpected_closes _)

theorem switchEntry_fits : Fits c (switchEntry p) := by
  apply Closes.bind start_fits
  intro origin
  apply Closes.bind (switchLabel_fits hp)
  intro label
  refine Closes.token nofun ?_
  refine Closes.bind (many_fits (fits_of_reads fun _ _ => ⟨_, rfl⟩) ?_)
    fun statements => pushFrom_fits _ _
  exact Closes.branch atEnd_fits (unexpected_closes _) hp.statement

theorem switchStmt_fits : Fits (c + 1) (switchStmt p) := by
  refine Closes.token nofun ?_
  apply Closes.bind (parenthesized_fits hp)
  intro selector
  apply Closes.opening
  apply Closes.bind (many_fits (notAt_fits _) (switchEntry_fits hp))
  intro entries
  exact Closes.closing (.pure _)

theorem synchronizedStmt_closes (hs : s.Allows source k (c + 1))
    (hkind : kindAt s.rest 0 ≠ .leftBrace) : ClosesAt source s k 0 (synchronizedStmt p) := by
  refine .advance hs hkind ?_
  apply Closes.bind (parenthesized_fits hp)
  intro lock
  exact Closes.bind (block_fits hp) fun body => .pure _

theorem assertStmt_closes (hs : s.Allows source k c) (hkind : kindAt s.rest 0 ≠ .leftBrace) :
    ClosesAt source s k 0 (assertStmt p) := by
  refine .advance hs hkind ?_
  apply Closes.bind hp.expression
  intro condition
  refine Closes.bind (optional_fits (accept_fits nofun) hp.expression) fun message => ?_
  exact Closes.token nofun (.pure _)

theorem constructorCall_closes {isThis : Bool} (hs : s.Allows source k c)
    (hkind : kindAt s.rest 0 ≠ .leftBrace) :
    ClosesAt source s k 0 (constructorCall p isThis) := by
  refine .advance hs hkind ?_
  apply Closes.bind (arguments_fits hp)
  intro found
  exact Closes.token nofun (.pure _)

/-! ### All statements -/

/-- A statement that a keyword introduces, where that keyword is the next token. -/
theorem keywordStmt?_closes {word : Keyword} {next : TokenKind} {body : Parser NodeKind}
    (hbody : keywordStmt? p word next = some body) (hs : s.Allows source k (c + 1))
    (hkind : kindAt s.rest 0 ≠ .leftBrace) : ClosesAt source s k 0 body := by
  unfold keywordStmt? at hbody
  split at hbody
  · cases hbody
    exact ifStmt_fits hp source s k hs
  · cases hbody
    exact whileStmt_closes hp hs hkind
  · cases hbody
    exact doStmt_closes hp hs hkind
  · cases hbody
    exact forStmt_fits hp source s k hs
  · cases hbody
    exact returnStmt_closes hp hs hkind
  · cases hbody
    exact (jumpLabel_closes hs hkind).map
  · cases hbody
    exact (jumpLabel_closes hs hkind).map
  · cases hbody
    exact throwStmt_closes hp hs hkind
  · cases hbody
    exact tryStmt_fits hp source s k hs
  · cases hbody
    exact switchStmt_fits hp source s k hs
  · split at hbody
    · cases hbody
      exact synchronizedStmt_closes hp hs hkind
    · cases hbody
  · cases hbody
    exact assertStmt_closes hp hs hkind
  · split at hbody
    · cases hbody
      exact constructorCall_closes hp hs hkind
    · cases hbody
  · split at hbody
    · cases hbody
      exact constructorCall_closes hp hs hkind
    · cases hbody
  · cases hbody

theorem plainStmt_fits (origin : Nat) : Fits c (plainStmt p origin) := by
  apply Closes.bind ahead_fits
  intro tokens
  split
  · apply Closes.bind (modifiers_fits hp)
    intro front
    exact Closes.bind (typeDeclaration_fits hp) fun declaration => pushFrom_fits _ _
  · apply Closes.bind (variablesOrExpression_fits hp)
    intro expression
    exact Closes.token nofun (pushFrom_fits _ _)

theorem statement_fits : Fits c (statement p) := by
  apply nested_fits
  intro source s k hs
  rw [closesAt_start, closesAt_peek, closesAt_peek]
  split
  · exact block_fits hp source s k hs
  · next hsemicolon => exact .advance hs (by simp [hsemicolon]) (pushFrom_fits _ _)
  · next label hlabel =>
    split
    · next hcolon =>
      refine .advanceTwo hs (by simp [hlabel]) (by simp [eq_of_beq hcolon]) ?_
      exact Closes.bind hp.statement fun inner => pushFrom_fits _ _
    · exact plainStmt_fits hp _ source s k hs
  · next word hword =>
    split
    · next body hbody =>
      refine .bind (keywordStmt?_closes hp hbody hs (by simp [hword])) fun kind t _ ht => ?_
      exact pushFrom_fits _ _ source t k (ht.allows hs)
    · exact plainStmt_fits hp _ source s k hs
  · exact plainStmt_fits hp _ source s k hs

end

end CodeMarkup.Grammar
