import CodeMarkup.Grammar.Statements
import CodeMarkup.Proofs.Levels.Expressions

namespace CodeMarkup.Grammar

open Parser

/-!
# Levels of declarations and statements

* `classDeclaration_keeps`, `enumDeclaration_keeps`, `typeDeclaration_keeps`: types.
* `methodOrField_keeps`, `bodyDeclaration_keeps`, `compilationUnit_keeps`: members and files.
* `keywordStmt?_keeps`, `plainStmt_keeps`, `statement_keeps`: statements.
-/

variable {source : Source} {p : Productions}

section

variable (hp : ∀ construct, Keeps source (p construct))

include hp

/-! ### Types -/

theorem classDeclaration_keeps (front : Modifiers) (isInterface : Bool) :
    Keeps source (classDeclaration p front isInterface) := by
  refine advance_keeps.bind fun _ => (identifier_keeps _).bind fun name => ?_
  refine (optionalList_keeps (check_keeps _) (typeParameters_keeps hp)).bind fun parameters => ?_
  refine (optionalList_keeps (accept_keeps _) (typeList_keeps hp)).bind fun extended => ?_
  refine (optionalList_keeps (accept_keeps _) (typeList_keeps hp)).bind fun implemented => ?_
  exact (classBody_keeps hp).bind fun found => pushModified_keeps _ _

theorem enumConstant_keeps : Keeps source (enumConstant p) := by
  refine (modifiers_keeps hp).bind fun front => (identifier_keeps _).bind fun name => ?_
  refine (optionalList_keeps (check_keeps _) (arguments_keeps hp)).bind fun found => ?_
  refine (optional_keeps (check_keeps _) (classBody_keeps hp)).bind fun body => ?_
  exact pushModified_keeps _ _

theorem enumEntriesWithin_keeps (rounds : Nat) : Keeps source (enumEntriesWithin p rounds) := by
  induction rounds with
  | zero => exact exhausted_keeps
  | succ rounds ih =>
    refine (check_keeps _).bind fun semicolon => (check_keeps _).bind fun brace => ?_
    split
    · exact .pure []
    · refine (enumConstant_keeps hp).bind fun first => (accept_keeps _).branch ?_ (.pure [first])
      exact ih.bind fun others => .pure _

theorem enumEntries_keeps : Keeps source (enumEntries p) :=
  ahead_keeps.bind fun _ => enumEntriesWithin_keeps hp _

theorem enumDeclaration_keeps (front : Modifiers) : Keeps source (enumDeclaration p front) := by
  refine Keeps.token ((identifier_keeps _).bind fun name => ?_)
  refine (optionalList_keeps (accept_keeps _) (typeList_keeps hp)).bind fun implemented => ?_
  refine Keeps.token ((enumEntries_keeps hp).bind fun entries => ?_)
  refine (optionalList_keeps (accept_keeps _) (members_keeps hp)).bind fun found => ?_
  exact Keeps.token (pushModified_keeps _ _)

theorem typeDeclaration_keeps (front : Modifiers) : Keeps source (typeDeclaration p front) := by
  refine nested_keeps ((peek_keeps 0).bind fun kind => ?_)
  split
  · exact classDeclaration_keeps hp front false
  · exact classDeclaration_keeps hp front true
  · exact enumDeclaration_keeps hp front
  · exact unexpected_keeps _

/-! ### Members -/

theorem parameters_keeps : Keeps source (parameters p) :=
  Keeps.token ((listUntil_keeps (parameter_keeps hp)).bind fun found => Keeps.token (.pure found))

theorem thrownTypes_keeps : Keeps source (thrownTypes p) :=
  optionalList_keeps (accept_keeps _) (typeList_keeps hp)

theorem constructorDeclaration_keeps (front : Modifiers) (typeParams : List NodeId) :
    Keeps source (constructorDeclaration p front typeParams) := by
  refine (identifier_keeps _).bind fun name => (parameters_keeps hp).bind fun params => ?_
  refine (thrownTypes_keeps hp).bind fun thrown => (block_keeps hp).bind fun body => ?_
  exact pushModified_keeps _ _

theorem methodBody_keeps : Keeps source (methodBody p) := by
  refine (accept_keeps _).branch (.pure none) ((accept_keeps _).branch ?_ (block_keeps hp).map)
  exact (hp .elementValue).discard.bind fun _ => Keeps.token (.pure none)

theorem methodDeclaration_keeps (front : Modifiers) (typeParams : List NodeId)
    (returnType : NodeId) (name : String) :
    Keeps source (methodDeclaration p front typeParams returnType name) := by
  refine (parameters_keeps hp).bind fun params => (spanOf_keeps _).bind fun span => ?_
  refine (arrayDims_keeps _ _).bind fun returnType => (thrownTypes_keeps hp).bind fun thrown => ?_
  exact (methodBody_keeps hp).bind fun body => pushModified_keeps _ _

theorem fieldDeclaration_keeps (front : Modifiers) (type : NodeId) (name : String)
    (nameStart : Nat) : Keeps source (fieldDeclaration p front type name nameStart) := by
  refine (declaratorRest_keeps hp name nameStart).bind fun first => ?_
  refine (many_keeps (accept_keeps _) (declarator_keeps hp)).bind fun others => ?_
  exact Keeps.token (pushModified_keeps _ _)

theorem methodOrField_keeps (front : Modifiers) (typeParams : List NodeId) :
    Keeps source (methodOrField p front typeParams) := by
  refine (typeOrVoid_keeps hp).bind fun type => start_keeps.bind fun nameStart => ?_
  refine (identifier_keeps _).bind fun name => ?_
  refine (check_keeps _).branch (methodDeclaration_keeps hp front typeParams type name) ?_
  refine (kindOf_keeps type).bind fun kind => ?_
  split
  · exact unexpected_keeps _
  · exact fieldDeclaration_keeps hp front type name nameStart

theorem packageDeclaration_keeps : Keeps source (packageDeclaration p) := by
  refine start_keeps.bind fun origin => ?_
  refine (many_keeps (check_keeps _) (annotationUse_keeps hp)).bind fun annotations => ?_
  refine start_keeps.bind fun _ => Keeps.token (qualifiedName_keeps.bind fun name => ?_)
  exact Keeps.token (pushModified_keeps _ _)

omit hp in
theorem importDeclaration_keeps : Keeps source importDeclaration := by
  refine start_keeps.bind fun origin => Keeps.token ((accept_keeps _).bind fun isStatic => ?_)
  refine qualifiedName_keeps.bind fun name => ?_
  refine (peek_keeps 0).bind fun kind => (peek_keeps 1).bind fun next => ?_
  dsimp only
  split
  · exact advanceTwo_keeps.bind fun _ => Keeps.token (pushFrom_keeps _ _)
  · exact Keeps.token (pushFrom_keeps _ _)

theorem compilationUnit_keeps : Keeps source (compilationUnit p) := by
  have htypes : Keeps source (many (return !(← atEnd)) do
      if ← accept .semicolon then return none
      else
        let front ← modifiers p
        let type ← typeDeclaration p front
        return some type) := by
    refine many_keeps (atEnd_keeps.bind fun _ => .pure _) ((accept_keeps _).branch (.pure none) ?_)
    refine (modifiers_keeps hp).bind fun front => ?_
    exact (typeDeclaration_keeps hp front).bind fun type => .pure _
  refine start_keeps.bind fun origin => ?_
  refine (optional_keeps (ahead_keeps.bind fun _ => .pure _) (packageDeclaration_keeps hp)).bind
    fun package => ?_
  refine (many_keeps (check_keeps _) importDeclaration_keeps).bind fun imports => ?_
  exact htypes.bind fun types => pushFrom_keeps _ _

/-! ### Parts of statements -/

theorem parenthesized_keeps : Keeps source (parenthesized p) :=
  Keeps.token ((hp .expression).bind fun inner => Keeps.token (.pure inner))

theorem variablesOrExpression_keeps : Keeps source (variablesOrExpression p) := by
  refine ahead_keeps.bind fun tokens => ?_
  split
  · exact localVariables_keeps hp
  · exact hp .expression

theorem expressionList_keeps : Keeps source (expressionList p) :=
  commaSeparated_keeps (hp .expression)

omit hp in
/-- A test for a token that is not there. -/
theorem notAt_keeps (kind : TokenKind) : Keeps source (do return !(← check kind)) :=
  (check_keeps kind).bind fun _ => .pure _

/-! ### Loops and branches -/

theorem ifStmt_keeps : Keeps source (ifStmt p) := by
  refine Keeps.token ((parenthesized_keeps hp).bind fun condition => ?_)
  refine (hp .statement).bind fun yes => ?_
  exact (optional_keeps (accept_keeps _) (hp .statement)).bind fun no => .pure _

theorem whileStmt_keeps : Keeps source (whileStmt p) := by
  refine advance_keeps.bind fun _ => (parenthesized_keeps hp).bind fun condition => ?_
  exact (hp .statement).bind fun body => .pure _

theorem doStmt_keeps : Keeps source (doStmt p) := by
  refine advance_keeps.bind fun _ => (hp .statement).bind fun body => Keeps.token ?_
  exact (parenthesized_keeps hp).bind fun condition => Keeps.token (.pure _)

theorem forRest_keeps (init : List NodeId) : Keeps source (forRest p init) := by
  refine Keeps.token ?_
  refine (optional_keeps (notAt_keeps _) (hp .expression)).bind fun compare => Keeps.token ?_
  refine (optionalList_keeps (notAt_keeps _) (expressionList_keeps hp)).bind fun update => ?_
  exact Keeps.token ((hp .statement).bind fun body => .pure _)

theorem forStmt_keeps : Keeps source (forStmt p) := by
  refine Keeps.token (Keeps.token (ahead_keeps.bind fun tokens => ?_))
  split
  · refine (localVariables_keeps hp).bind fun declared => ?_
    refine (accept_keeps _).branch ?_ (forRest_keeps hp [declared])
    refine (hp .expression).bind fun iterable => Keeps.token ?_
    exact (hp .statement).bind fun body => .pure _
  · refine (optionalList_keeps (notAt_keeps _) (expressionList_keeps hp)).bind fun init => ?_
    exact forRest_keeps hp init

/-! ### Transfers -/

theorem returnStmt_keeps : Keeps source (returnStmt p) := by
  refine advance_keeps.bind fun _ => ?_
  refine (optional_keeps (notAt_keeps _) (hp .expression)).bind fun expression => ?_
  exact Keeps.token (.pure _)

omit hp in
theorem jumpLabel_keeps : Keeps source jumpLabel := by
  refine advance_keeps.bind fun _ => ?_
  refine (optional_keeps ((peek_keeps 0).bind fun _ => .pure _) (identifier_keeps _)).bind
    fun label => ?_
  exact Keeps.token (.pure label)

theorem throwStmt_keeps : Keeps source (throwStmt p) :=
  advance_keeps.bind fun _ => (hp .expression).bind fun _ => Keeps.token (.pure _)

/-! ### Handlers, switches and locks -/

theorem catchParameter_keeps : Keeps source (catchParameter p) := by
  -- from the name on, with the type at hand
  have hname : ∀ (front : Modifiers) (type : NodeId), Keeps source (do
      let name ← identifier "parameter name"
      pushModified front
        (.parameterDecl front.annotations front.keywords (some type) false name)) :=
    fun front type => (identifier_keeps _).bind fun name => pushModified_keeps _ _
  refine (modifiers_keeps hp).bind fun front => start_keeps.bind fun typeStart => ?_
  refine (hp .type).bind fun first => ?_
  refine (many_keeps (accept_keeps _) (hp .type)).bind fun others => ?_
  split
  · exact hname front first
  · exact (pushFrom_keeps _ _).bind fun type => hname front type

theorem catchClause_keeps : Keeps source (catchClause p) := by
  refine start_keeps.bind fun origin => advance_keeps.bind fun _ => Keeps.token ?_
  refine (catchParameter_keeps hp).bind fun parameter => Keeps.token ?_
  exact (block_keeps hp).bind fun body => pushFrom_keeps _ _

theorem resources_keeps : Keeps source (resources p) :=
  (listUntil_keeps (variablesOrExpression_keeps hp)).bind fun found => Keeps.token (.pure found)

theorem tryStmt_keeps : Keeps source (tryStmt p) := by
  refine Keeps.token ?_
  refine (optionalList_keeps (accept_keeps _) (resources_keeps hp)).bind fun found => ?_
  refine (block_keeps hp).bind fun tryBlock => ?_
  refine (many_keeps (check_keeps _) (catchClause_keeps hp)).bind fun clauses => ?_
  refine (optional_keeps (accept_keeps _) (block_keeps hp)).bind fun finallyBlock => ?_
  split
  · exact unexpected_keeps _
  · exact .pure _

theorem switchLabel_keeps : Keeps source (switchLabel p) :=
  (accept_keeps _).branch (hp .expression).map
    ((accept_keeps _).branch (.pure none) (unexpected_keeps _))

theorem switchEntry_keeps : Keeps source (switchEntry p) := by
  refine start_keeps.bind fun origin => (switchLabel_keeps hp).bind fun label => Keeps.token ?_
  refine (many_keeps ((peek_keeps 0).bind fun _ => .pure _) ?_).bind fun statements =>
    pushFrom_keeps _ _
  exact atEnd_keeps.branch (unexpected_keeps _) (hp .statement)

theorem switchStmt_keeps : Keeps source (switchStmt p) := by
  refine Keeps.token ((parenthesized_keeps hp).bind fun selector => Keeps.token ?_)
  refine (many_keeps (notAt_keeps _) (switchEntry_keeps hp)).bind fun entries => ?_
  exact Keeps.token (.pure _)

theorem synchronizedStmt_keeps : Keeps source (synchronizedStmt p) := by
  refine advance_keeps.bind fun _ => (parenthesized_keeps hp).bind fun lock => ?_
  exact (block_keeps hp).bind fun body => .pure _

theorem assertStmt_keeps : Keeps source (assertStmt p) := by
  refine advance_keeps.bind fun _ => (hp .expression).bind fun condition => ?_
  refine (optional_keeps (accept_keeps _) (hp .expression)).bind fun message => ?_
  exact Keeps.token (.pure _)

theorem constructorCall_keeps (isThis : Bool) : Keeps source (constructorCall p isThis) :=
  advance_keeps.bind fun _ => (arguments_keeps hp).bind fun _ => Keeps.token (.pure _)

/-! ### All statements -/

theorem keywordStmt?_keeps {word : Keyword} {next : TokenKind} {body : Parser NodeKind}
    (h : keywordStmt? p word next = some body) : Keeps source body := by
  unfold keywordStmt? at h
  split at h
  all_goals try split at h
  all_goals cases h
  · exact ifStmt_keeps hp
  · exact whileStmt_keeps hp
  · exact doStmt_keeps hp
  · exact forStmt_keeps hp
  · exact returnStmt_keeps hp
  · exact jumpLabel_keeps.map
  · exact jumpLabel_keeps.map
  · exact throwStmt_keeps hp
  · exact tryStmt_keeps hp
  · exact switchStmt_keeps hp
  · exact synchronizedStmt_keeps hp
  · exact assertStmt_keeps hp
  · exact constructorCall_keeps hp true
  · exact constructorCall_keeps hp false

theorem plainStmt_keeps (origin : Nat) : Keeps source (plainStmt p origin) := by
  refine ahead_keeps.bind fun tokens => ?_
  split
  · refine (modifiers_keeps hp).bind fun front => ?_
    exact (typeDeclaration_keeps hp front).bind fun declaration => pushFrom_keeps _ _
  · refine (variablesOrExpression_keeps hp).bind fun expression => ?_
    exact Keeps.token (pushFrom_keeps _ _)

end

end CodeMarkup.Grammar
