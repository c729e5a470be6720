import CodeMarkup.Proofs.Trivia.Declarations

namespace CodeMarkup.Grammar

open CodeMarkup.Parser

/-!
# Statements, side by side

Each production agrees with itself on two texts that look alike, if the productions inside it do.

* `keywordStmt?_agree`: the same keyword introduces the same statement.
* `statement_agree`: all statements.
-/

variable {a b : Source} {p q : Productions}

theorem jumpLabel_agree : Agree a b Eq jumpLabel jumpLabel := by
  refine advance_agree.seq fun _ => ?_
  refine (optional_agree (peek_agree 0).mapEq (identifier_agree _)).seq fun label => ?_
  exact (expect_agree _).seq fun _ => .pure rfl

section

variable (hp : ∀ construct, Agree a b Eq (p construct) (q construct))

include hp

theorem parenthesized_agree : Agree a b Eq (parenthesized p) (parenthesized q) := by
  refine (expect_agree _).seq fun _ => ?_
  refine (hp .expression).seq fun inner => ?_
  exact (expect_agree _).seq fun _ => .pure rfl

theorem variablesOrExpression_agree :
    Agree a b Eq (variablesOrExpression p) (variablesOrExpression q) := by
  refine .ahead fun xs ys h => ?_
  rw [h.startsLocalVariable_eq]
  split
  · exact localVariables_agree hp
  · exact hp .expression

theorem expressionList_agree : Agree a b Eq (expressionList p) (expressionList q) :=
  commaSeparated_agree (hp .expression)

/-! ### Loops and branches -/

theorem ifStmt_agree : Agree a b Eq (ifStmt p) (ifStmt q) := by
  refine (expect_agree _).seq fun _ => ?_
  refine (parenthesized_agree hp).seq fun condition => ?_
  refine (hp .statement).seq fun yes => ?_
  exact (optional_agree (accept_agree _) (hp .statement)).seq fun no => .pure rfl

theorem whileStmt_agree : Agree a b Eq (whileStmt p) (whileStmt q) := by
  refine advance_agree.seq fun _ => ?_
  refine (parenthesized_agree hp).seq fun condition => ?_
  exact (hp .statement).seq fun body => .pure rfl

theorem doStmt_agree : Agree a b Eq (doStmt p) (doStmt q) := by
  refine advance_agree.seq fun _ => ?_
  refine (hp .statement).seq fun body => ?_
  refine (expect_agree _).seq fun _ => ?_
  refine (parenthesized_agree hp).seq fun condition => ?_
  exact (expect_agree _).seq fun _ => .pure rfl

theorem forRest_agree (init : List NodeId) : Agree a b Eq (forRest p init) (forRest q init) := by
  refine (expect_agree _).seq fun _ => ?_
  refine (optional_agree (check_agree _).mapEq (hp .expression)).seq fun compare => ?_
  refine (expect_agree _).seq fun _ => ?_
  refine (optionalList_agree (check_agree _).mapEq (expressionList_agree hp)).seq fun update => ?_
  refine (expect_agree _).seq fun _ => ?_
  exact (hp .statement).seq fun body => .pure rfl

theorem forStmt_agree : Agree a b Eq (forStmt p) (forStmt q) := by
  refine (expect_agree _).seq fun _ => ?_
  refine (expect_agree _).seq fun _ => ?_
  refine .ahead fun xs ys h => ?_
  rw [h.startsLocalVariable_eq]
  split
  · refine (localVariables_agree hp).seq fun declared => ?_
    refine (accept_agree _).branch ?_ (forRest_agree hp [declared])
    refine (hp .expression).seq fun iterable => ?_
    refine (expect_agree _).seq fun _ => ?_
    exact (hp .statement).seq fun body => .pure rfl
  · refine (optionalList_agree (check_agree _).mapEq (expressionList_agree hp)).seq fun init => ?_
    exact forRest_agree hp init

/-! ### Transfers -/

theorem returnStmt_agree : Agree a b Eq (returnStmt p) (returnStmt q) := by
  refine advance_agree.seq fun _ => ?_
  refine (optional_agree (check_agree _).mapEq (hp .expression)).seq fun expression => ?_
  exact (expect_agree _).seq fun _ => .pure rfl

theorem throwStmt_agree : Agree a b Eq (throwStmt p) (throwStmt q) := by
  refine advance_agree.seq fun _ => ?_
  refine (hp .expression).seq fun expression => ?_
  exact (expect_agree _).seq fun _ => .pure rfl

/-! ### Handlers, switches and locks -/

theorem catchParameter_agree : Agree a b Eq (catchParameter p) (catchParameter q) := by
  refine (modifiers_agree hp).bind fun front front' hfront => ?_
  refine .start fun m n hmn => ?_
  refine (hp .type).seq fun first => ?_
  refine (many_agree (accept_agree _) (hp .type)).seq fun others => ?_
  -- the name, after one type or after a union of them
  have hrest : ∀ type : NodeId, Agree a b Eq
      (identifier "parameter name" >>= fun name => pushModified front
        (.parameterDecl front.annotations front.keywords (some type) false name))
      (identifier "parameter name" >>= fun name => pushModified front'
        (.parameterDecl front'.annotations front'.keywords (some type) false name)) := by
    intro type
    refine (identifier_agree _).seq fun name => ?_
    rw [hfront.annotations, hfront.keywords]
    exact pushModified_agree hfront.same _
  dsimp only
  split
  · exact hrest first
  · exact (pushFrom_agree hmn _).seq hrest

theorem catchClause_agree : Agree a b Eq (catchClause p) (catchClause q) := by
  refine .start fun m n hmn => ?_
  refine advance_agree.seq fun _ => ?_
  refine (expect_agree _).seq fun _ => ?_
  refine (catchParameter_agree hp).seq fun parameter => ?_
  refine (expect_agree _).seq fun _ => ?_
  exact (block_agree hp).seq fun body => pushFrom_agree hmn _

theorem resources_agree : Agree a b Eq (resources p) (resources q) := by
  refine (listUntil_agree (variablesOrExpression_agree hp)).seq fun found => ?_
  exact (expect_agree _).seq fun _ => .pure rfl

theorem tryStmt_agree : Agree a b Eq (tryStmt p) (tryStmt q) := by
  refine (expect_agree _).seq fun _ => ?_
  refine (optionalList_agree (accept_agree _) (resources_agree hp)).seq fun found => ?_
  refine (block_agree hp).seq fun tryBlock => ?_
  refine (many_agree (check_agree _) (catchClause_agree hp)).seq fun clauses => ?_
  refine (optional_agree (accept_agree _) (block_agree hp)).seq fun finallyBlock => ?_
  split
  · exact unexpected_agree _
  · exact .pure rfl

theorem switchLabel_agree : Agree a b Eq (switchLabel p) (switchLabel q) := by
  refine (accept_agree _).branch (hp .expression).mapEq ?_
  exact (accept_agree _).branch (.pure rfl) (unexpected_agree _)

theorem switchEntry_agree : Agree a b Eq (switchEntry p) (switchEntry q) := by
  refine .start fun m n hmn => ?_
  refine (switchLabel_agree hp).seq fun label => ?_
  refine (expect_agree _).seq fun _ => ?_
  refine (many_agree (.peek fun kind => .pure rfl) ?_).seq fun statements => pushFrom_agree hmn _
  exact atEnd_agree.branch (unexpected_agree _) (hp .statement)

theorem switchStmt_agree : Agree a b Eq (switchStmt p) (switchStmt q) := by
  refine (expect_agree _).seq fun _ => ?_
  refine (parenthesized_agree hp).seq fun selector => ?_
  refine (expect_agree _).seq fun _ => ?_
  refine (many_agree (check_agree _).mapEq (switchEntry_agree hp)).seq fun entries => ?_
  exact (expect_agree _).seq fun _ => .pure rfl

theorem synchronizedStmt_agree : Agree a b Eq (synchronizedStmt p) (synchronizedStmt q) := by
  refine advance_agree.seq fun _ => ?_
  refine (parenthesized_agree hp).seq fun lock => ?_
  exact (block_agree hp).seq fun body => .pure rfl

theorem assertStmt_agree : Agree a b Eq (assertStmt p) (assertStmt q) := by
  refine advance_agree.seq fun _ => ?_
  refine (hp .expression).seq fun condition => ?_
  refine (optional_agree (accept_agree _) (hp .expression)).seq fun message => ?_
  exact (expect_agree _).seq fun _ => .pure rfl

theorem constructorCall_agree (isThis : Bool) :
    Agree a b Eq (constructorCall p isThis) (constructorCall q isThis) := by
  refine advance_agree.seq fun _ => ?_
  refine (arguments_agree hp).seq fun found => ?_
  exact (expect_agree _).seq fun _ => .pure rfl

/-! ### All statements -/

/-- Keywords introduce statements that agree, or none. -/
theorem keywordStmt?_agree (word : Keyword) (next : TokenKind) :
    Option.Rel (Agree a b Eq) (keywordStmt? p word next) (keywordStmt? q word next) := by
  unfold keywordStmt?
  split
  · exact .some (ifStmt_agree hp)
  · exact .some (whileStmt_agree hp)
  · exact .some (doStmt_agree hp)
  · exact .some (forStmt_agree hp)
  · exact .some (returnStmt_agree hp)
  · exact .some jumpLabel_agree.mapEq
  · exact .some jumpLabel_agree.mapEq
  · exact .some (throwStmt_agree hp)
  · exact .some (tryStmt_agree hp)
  · exact .some (switchStmt_agree hp)
  · split
    · exact .some (synchronizedStmt_agree hp)
    · exact .none
  · exact .some (assertStmt_agree hp)
  · split
    · exact .some (constructorCall_agree hp true)
    · exact .none
  · split
    · exact .some (constructorCall_agree hp false)
    · exact .none
  · exact .none

theorem plainStmt_agree {m n : Nat} (hmn : a = b → m = n) :
    Agree a b Eq (plainStmt p m) (plainStmt q n) := by
  refine .ahead fun xs ys h => ?_
  rw [h.startsLocalType_eq]
  split
  · refine (modifiers_agree hp).bind fun front front' hfront => ?_
    exact (typeDeclaration_agree hp hfront).seq fun declaration => pushFrom_agree hmn _
  · refine (variablesOrExpression_agree hp).seq fun expression => ?_
    exact (expect_agree _).seq fun _ => pushFrom_agree hmn _

theorem statement_agree : Agree a b Eq (statement p) (statement q) := by
  refine nested_agree (.start fun m n hmn => .peek fun next => .peek fun kind => ?_)
  split
  · exact block_agree hp
  · exact advance_agree.seq fun _ => pushFrom_agree hmn _
  · split
    · refine advanceTwo_agree.seq fun _ => ?_
      exact (hp .statement).seq fun inner => pushFrom_agree hmn _
    · exact plainStmt_agree hp hmn
  · next word =>
    -- the same keyword and the same next token introduce the same statement
    have hstatement := keywordStmt?_agree hp word next
    generalize keywordStmt? p word next = found at hstatement ⊢
    generalize keywordStmt? q word next = found' at hstatement ⊢
    cases hstatement with
    | none => exact plainStmt_agree hp hmn
    | some hbody => exact hbody.seq fun kind => pushFrom_agree hmn kind
  · exact plainStmt_agree hp hmn

end

end CodeMarkup.Grammar
