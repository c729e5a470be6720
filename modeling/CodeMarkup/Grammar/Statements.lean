import CodeMarkup.Grammar.Declarations

namespace CodeMarkup.Grammar

open CodeMarkup.Parser

/-!
# Statements

Statements that a keyword introduces, labels, local declarations and expressions.
-/

/-- An expression in parentheses, as a statement demands it. -/
def parenthesized (p : Productions) : Parser NodeId := do
  expect .leftParen
  let inner ← p .expression
  expect .rightParen
  return inner

/-- A local variable declaration or an expression. -/
def variablesOrExpression (p : Productions) : Parser NodeId := do
  if startsLocalVariable (← ahead) then localVariables p else p .expression

/-- Expressions with commas between them. -/
def expressionList (p : Productions) : Parser (List NodeId) :=
  commaSeparated (p .expression)

/-! ### Loops and branches -/

/-- A branch. -/
def ifStmt (p : Productions) : Parser NodeKind := do
  expect (.keyword .kwIf)
  let condition ← parenthesized p
  let yes ← p .statement
  let no ← optional (accept (.keyword .kwElse)) (p .statement)
  return .ifStmt condition yes no

/-- A loop with a test before its body. -/
def whileStmt (p : Productions) : Parser NodeKind := do
  advance
  let condition ← parenthesized p
  let body ← p .statement
  return .whileStmt condition body

/-- A loop with a test after its body. -/
def doStmt (p : Productions) : Parser NodeKind := do
  advance
  let body ← p .statement
  expect (.keyword .kwWhile)
  let condition ← parenthesized p
  expect .semicolon
  return .doStmt body condition

/-- A counting loop, after the first semicolon of its header. -/
def forRest (p : Productions) (init : List NodeId) : Parser NodeKind := do
  expect .semicolon
  let compare ← optional (return !(← check .semicolon)) (p .expression)
  expect .semicolon
  let update ← optionalList (return !(← check .rightParen)) (expressionList p)
  expect .rightParen
  let body ← p .statement
  return .forStmt init compare update body

/-- A counting loop, or a loop over elements. -/
def forStmt (p : Productions) : Parser NodeKind := do
  expect (.keyword .kwFor)
  expect .leftParen
  if startsLocalVariable (← ahead) then
    let declared ← localVariables p
    if ← accept .colon then
      let iterable ← p .expression
      expect .rightParen
      let body ← p .statement
      return .forEachStmt declared iterable body
    else forRest p [declared]
  else
    let init ← optionalList (return !(← check .semicolon)) (expressionList p)
    forRest p init

/-! ### Transfers -/

/-- A statement that leaves a method, with its result. -/
def returnStmt (p : Productions) : Parser NodeKind := do
  advance
  let expression ← optional (return !(← check .semicolon)) (p .expression)
  expect .semicolon
  return .returnStmt expression

/-- The label of a jump and the semicolon after it. -/
def jumpLabel : Parser (Option String) := do
  advance
  let label ← optional (return (← peek 0).isIdentifier) (identifier "label")
  expect .semicolon
  return label

/-- A statement that throws. -/
def throwStmt (p : Productions) : Parser NodeKind := do
  advance
  let expression ← p .expression
  expect .semicolon
  return .throwStmt expression

/-! ### Handlers, switches and locks -/

/-- The parameter of a catch clause, whose type may have alternatives. -/
def catchParameter (p : Productions) : Parser NodeId := do
  let front ← modifiers p
  let typeStart ← start
  let first ← p .type
  let others ← many (accept (.operator "|")) (p .type)
  let type ←
    if others.isEmpty then pure first else pushFrom typeStart (.unionType (first :: others))
  let name ← identifier "parameter name"
  pushModified front (.parameterDecl front.annotations front.keywords (some type) false name)

/-- A catch clause. -/
def catchClause (p : Productions) : Parser NodeId := do
  let origin ← start
  advance
  expect .leftParen
  let parameter ← catchParameter p
  expect .rightParen
  let body ← block p
  pushFrom origin (.catchClause parameter body)

/-- The resources of a `try`, up to the closing parenthesis. -/
def resources (p : Productions) : Parser (List NodeId) := do
  let found ← listUntil .rightParen .semicolon (variablesOrExpression p)
  expect .rightParen
  return found

/-- A block with handlers.  Without resources it needs at least one of them. -/
def tryStmt (p : Productions) : Parser NodeKind := do
  expect (.keyword .kwTry)
  let found ← optionalList (accept .leftParen) (resources p)
  let tryBlock ← block p
  let clauses ← many (check (.keyword .kwCatch)) (catchClause p)
  let finallyBlock ← optional (accept (.keyword .kwFinally)) (block p)
  if found.isEmpty && clauses.isEmpty && finallyBlock.isNone then unexpected "'catch' or 'finally'"
  else return .tryStmt found tryBlock clauses finallyBlock

/-- The label of a switch entry; the default has none. -/
def switchLabel (p : Productions) : Parser (Option NodeId) := do
  if ← accept (.keyword .kwCase) then some <$> p .expression
  else if ← accept (.keyword .kwDefault) then return none
  else unexpected "'case', 'default' or '\x7d'"

/-- Whether a token ends the statements of a switch entry. -/
def endsEntry (kind : TokenKind) : Bool :=
  kind == .rightBrace || kind == .keyword .kwCase || kind == .keyword .kwDefault

/-- A label of a switch with its statements. -/
def switchEntry (p : Productions) : Parser NodeId := do
  let origin ← start
  let label ← switchLabel p
  expect .colon
  let statements ← many (return !endsEntry (← peek 0)) do
    if ← atEnd then unexpected TokenKind.rightBrace.describe else p .statement
  pushFrom origin (.switchEntry label statements)

/-- A switch. -/
def switchStmt (p : Productions) : Parser NodeKind := do
  expect (.keyword .kwSwitch)
  let selector ← parenthesized p
  expect .leftBrace
  let entries ← many (return !(← check .rightBrace)) (switchEntry p)
  expect .rightBrace
  return .switchStmt selector entries

/-- A block under a lock. -/
def synchronizedStmt (p : Productions) : Parser NodeKind := do
  advance
  let lock ← parenthesized p
  let body ← block p
  return .synchronizedStmt lock body

/-- An assertion, with a message or not. -/
def assertStmt (p : Productions) : Parser NodeKind := do
  advance
  let condition ← p .expression
  let message ← optional (accept .colon) (p .expression)
  expect .semicolon
  return .assertStmt condition message

/-- A call of another constructor. -/
def constructorCall (p : Productions) (isThis : Bool) : Parser NodeKind := do
  advance
  let found ← arguments p
  expect .semicolon
  return .constructorCall isThis found

/-! ### All statements -/

/-- The statement that a keyword introduces, given the token after it.  Keywords that start an
    expression or a declaration introduce none. -/
def keywordStmt? (p : Productions) (word : Keyword) (next : TokenKind) : Option (Parser NodeKind) :=
  match word with
  | .kwIf => some (ifStmt p)
  | .kwWhile => some (whileStmt p)
  | .kwDo => some (doStmt p)
  | .kwFor => some (forStmt p)
  | .kwReturn => some (returnStmt p)
  | .kwBreak => some (.breakStmt <$> jumpLabel)
  | .kwContinue => some (.continueStmt <$> jumpLabel)
  | .kwThrow => some (throwStmt p)
  | .kwTry => some (tryStmt p)
  | .kwSwitch => some (switchStmt p)
  | .kwSynchronized => if next == .leftParen then some (synchronizedStmt p) else none
  | .kwAssert => some (assertStmt p)
  | .kwThis => if next == .leftParen then some (constructorCall p true) else none
  | .kwSuper => if next == .leftParen then some (constructorCall p false) else none
  | _ => none

/-- A local declaration, or an expression with a semicolon. -/
def plainStmt (p : Productions) (origin : Nat) : Parser NodeId := do
  if startsLocalType (← ahead) then
    let front ← modifiers p
    let declaration ← typeDeclaration p front
    pushFrom origin (.localType declaration)
  else
    let expression ← variablesOrExpression p
    expect .semicolon
    pushFrom origin (.expressionStmt expression)

/-- A statement. -/
def statement (p : Productions) : Parser NodeId :=
  nested do
    let origin ← start
    let next ← peek 1
    match ← peek 0 with
    | .leftBrace => block p
    | .semicolon =>
      advance
      pushFrom origin .emptyStmt
    | .identifier label =>
      if next == .colon then
        advanceTwo
        let inner ← p .statement
        pushFrom origin (.labeledStmt label inner)
      else plainStmt p origin
    | .keyword word =>
      match keywordStmt? p word next with
      | some body =>
        let kind ← body
        pushFrom origin kind
      | none => plainStmt p origin
    | _ => plainStmt p origin

end CodeMarkup.Grammar
