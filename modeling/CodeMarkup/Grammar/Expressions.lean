import CodeMarkup.Grammar.Declarators
import CodeMarkup.Grammar.Markup
import CodeMarkup.Operator

namespace CodeMarkup.Grammar

open CodeMarkup.Parser

/-!
# Expressions

From assignment, which binds loosest, down to primary expressions.  Binary operations are grouped by
the power of their operators; a class body after `new` and a block after `->` lead back to
declarations and statements.
-/

/-! ### Parts of blocks and bodies -/

/-- Statements between braces. -/
def block (p : Productions) : Parser NodeId := do
  let origin ← start
  expect .leftBrace
  let statements ← many (return !(← check .rightBrace)) do
    if ← atEnd then unexpected TokenKind.rightBrace.describe else p .statement
  advance
  pushFrom origin (.block statements)

/-- The members up to a closing brace; semicolons between them count for nothing. -/
def members (p : Productions) : Parser (List NodeId) := do
  let items ← many (return !(← check .rightBrace)) do
    if ← atEnd then unexpected TokenKind.rightBrace.describe
    else if ← accept .semicolon then return none
    else
      let member ← p .bodyDeclaration
      return some member
  return items.filterMap id

/-- The members of a class between braces. -/
def classBody (p : Productions) : Parser (List NodeId) := do
  expect .leftBrace
  let found ← members p
  expect .rightBrace
  return found

/-- Arguments in parentheses. -/
def arguments (p : Productions) : Parser (List NodeId) := do
  expect .leftParen
  if ← accept .rightParen then return []
  else
    let found ← commaSeparated (p .expression)
    expect .rightParen
    return found

/-! ### Lambdas -/

/-- A parameter of a lambda: a bare name, or a parameter with its type. -/
def lambdaParameter (p : Productions) : Parser NodeId := do
  let next ← peek 1
  if (← peek 0).isIdentifier && (next == .comma || next == .rightParen || next == .arrow) then
    let origin ← start
    let name ← identifier "parameter name"
    pushFrom origin (.parameterDecl [] [] none false name)
  else parameter p

/-- A lambda. -/
def lambda (p : Productions) : Parser NodeId := do
  let origin ← start
  let parenthesized ← accept .leftParen
  let parameters ←
    if parenthesized then do
      let found ← listUntil .rightParen .comma (lambdaParameter p)
      expect .rightParen
      pure found
    else do
      let only ← lambdaParameter p
      pure [only]
  expect .arrow
  let body ← if ← check .leftBrace then block p else p .expression
  pushFrom origin (.lambda parameters body parenthesized)

/-! ### Creation -/

/-- The dimensions of an array: those with a size come first, and the others are counted. -/
def creationDims (p : Productions) : Parser (List NodeId × Nat) :=
  extend (fun (sizes, unsized) => do
    if ← accept .leftBracket then
      if ← accept .rightBracket then return some (sizes, unsized + 1)
      else if 0 < unsized then unexpected TokenKind.rightBracket.describe
      else
        let size ← p .expression
        expect .rightBracket
        return some (sizes ++ [size], unsized)
    else return none) ([], 0)

/-- `new` with what it creates, within a scope or not. -/
def creation (p : Productions) (scope : Option NodeId) (origin : Nat) : Parser NodeId := do
  expect (.keyword .kwNew)
  let type ← nonArrayType p
  if ← check .leftBracket then
    let (sizes, unsized) ← creationDims p
    let init ← optional (check .leftBrace) (p .arrayInitializer)
    if sizes.isEmpty && init.isNone then unexpected "array dimension or initializer"
    else pushFrom origin (.arrayCreation type sizes unsized init)
  else
    let found ← arguments p
    let body ← optional (check .leftBrace) (classBody p)
    pushFrom origin (.objectCreation scope type found body)

/-! ### Primary expressions -/

/-- `Type.class`, given the parser of the type. -/
def classLiteral (type : Parser NodeId) : Parser NodeId := do
  let origin ← start
  let found ← type
  expect .dot
  expect (.keyword .kwClass)
  pushFrom origin (.classLiteral found)

/-- Whether tokens go on with `.class`. -/
def startsClass (tokens : List Token) : Bool :=
  kindAt tokens 0 == .dot && kindAt tokens 1 == .keyword .kwClass

/-- A name as it starts an expression: a class literal, the type of a method reference, a call or
    the name itself.  A name with points before `::` is no type here. -/
def namePrimary (p : Productions) (name : String) : Parser NodeId := do
  let origin ← start
  let tokens ← ahead
  let after := scanType? tokens
  if after.any startsClass then classLiteral (p .type)
  else if after.any (fun rest => kindAt rest 0 == .doubleColon && rest.length + 1 < tokens.length)
      && kindAt tokens 1 != .dot then p .type
  else
    advance
    if ← check .leftParen then
      let found ← arguments p
      pushFrom origin (.methodCall none [] name found)
    else pushFrom origin (.simpleName name)

/-- The name of a primitive type as it starts an expression: a class literal, the type of a method
    reference or the name itself. -/
def primitivePrimary (p : Productions) (word : Keyword) : Parser NodeId := do
  let origin ← start
  let after := scanType? (← ahead)
  if after.any startsClass then classLiteral (p .type)
  else if after.any (kindAt · 0 == .doubleColon) then p .type
  else
    advance
    pushFrom origin (.simpleName word.text)

/-- The literal that a kind of token spells. -/
def literal? : TokenKind → Option Literal
  | .integer text => some (.integer text)
  | .long text => some (.long text)
  | .floating text => some (.double text)
  | .char text => some (.char text)
  | .string text => some (.string text)
  | .keyword .kwTrue => some (.boolean true)
  | .keyword .kwFalse => some (.boolean false)
  | .keyword .kwNull => some .null
  | _ => none

/-- The node that a single token makes by itself. -/
def singleton? : TokenKind → Option NodeKind
  | .keyword .kwThis => some (.thisExpr none)
  | .keyword .kwSuper => some (.superExpr none)
  | kind => (literal? kind).map .literal

/-- An expression without operators. -/
def primary (p : Productions) : Parser NodeId := do
  let origin ← start
  let kind ← peek 0
  match singleton? kind with
  | some form =>
    advance
    pushFrom origin form
  | none =>
    match kind with
    | .template raw => template p raw
    | .keyword .kwNew => creation p none origin
    | .keyword .kwVoid => classLiteral (typeOrVoid p)
    | .keyword word => if word.isPrimitive then primitivePrimary p word else unexpected "expression"
    | .identifier name => namePrimary p name
    | .leftParen =>
      advance
      let inner ← p .expression
      expect .rightParen
      pushFrom origin (.enclosed inner)
    | .leftBrace => jsonObject p
    | .leftBracket => jsonArray p
    | .operator "<" => tag p
    | _ => unexpected "expression"

/-! ### Operators after an expression -/

/-- What follows the point of a member access. -/
def member (p : Productions) (scope : NodeId) (origin : Nat) : Parser NodeId := do
  match ← peek 0 with
  | .operator "<" =>
    let types ← typeArguments p
    let name ← identifier "method name"
    let found ← arguments p
    pushFrom origin (.methodCall (some scope) types name found)
  | .identifier name =>
    advance
    if ← check .leftParen then
      let found ← arguments p
      pushFrom origin (.methodCall (some scope) [] name found)
    else pushFrom origin (.fieldAccess scope name)
  | .keyword .kwThis =>
    advance
    pushFrom origin (.thisExpr (some scope))
  | .keyword .kwSuper =>
    advance
    pushFrom origin (.superExpr (some scope))
  | .keyword .kwNew => creation p (some scope) origin
  | _ => unexpected "member name"

/-- The method that a reference names. -/
def referenceName : Parser String := do
  if ← accept (.keyword .kwNew) then return Keyword.kwNew.text else identifier "method name"

/-- One operator after an expression: a member, an index, a method reference or a step. -/
def suffix (p : Productions) (origin : Nat) (expression : NodeId) : Parser (Option NodeId) := do
  match ← peek 0 with
  | .dot =>
    advance
    some <$> member p expression origin
  | .leftBracket =>
    advance
    let index ← p .expression
    expect .rightBracket
    some <$> pushFrom origin (.arrayAccess expression index)
  | .doubleColon =>
    advance
    let name ← referenceName
    some <$> pushFrom origin (.methodReference expression name)
  | .operator "++" =>
    advance
    some <$> pushFrom origin (.unary .postIncrement expression)
  | .operator "--" =>
    advance
    some <$> pushFrom origin (.unary .postDecrement expression)
  | _ => return none

/-- A primary expression and the operators after it. -/
def suffixed (p : Productions) : Parser NodeId := do
  let origin ← start
  let first ← primary p
  extend (suffix p origin) first

/-! ### Operators before and between expressions -/

/-- The operator before an operand that a kind of token spells. -/
def leadingOp? : TokenKind → Option UnaryOp
  | .operator symbol => UnaryOp.ofLeadingSymbol? symbol
  | _ => none

/-- An operand: operators before it, casts, then an expression with suffixes. -/
def unary (p : Productions) : Parser NodeId := do
  let origin ← start
  match leadingOp? (← peek 0) with
  | some op =>
    advance
    let operand ← nested (p .unary)
    pushFrom origin (.unary op operand)
  | none =>
    if startsCast (← ahead) then
      advance
      let type ← p .type
      expect .rightParen
      let operand ← nested (p .unary)
      pushFrom origin (.cast type operand)
    else suffixed p

/-- Whether a form is a tag. -/
def isTag : NodeKind → Bool
  | .tag _ _ _ => true
  | _ => false

/-- How tightly `instanceof` binds: like the comparisons. -/
def instanceOfPower : Nat :=
  BinaryOp.less.power

/-- Takes a number of tokens. -/
def advanceBy : Nat → Parser Unit
  | 0 => return ()
  | count + 1 => do
    advance
    advanceBy count

/-- One operation on a left operand, if its operator binds at least as tightly as `power`.  After a
    tag, `<` opens markup, and `</` closes a tag everywhere. -/
def operation (p : Productions) (power origin : Nat) (left : NodeId) : Parser (Option NodeId) := do
  let tokens ← ahead
  if kindAt tokens 0 == .keyword .kwInstanceof then
    if instanceOfPower < power then return none
    else
      advance
      let type ← p .type
      some <$> pushFrom origin (.instanceOf left type)
  else
    match operatorAhead? tokens with
    | none => return none
    | some (symbol, count) =>
      if symbol == "<" && (startsClosingTag tokens || isTag (← kindOf left)) then return none
      else
        match BinaryOp.ofSymbol? symbol with
        | none => return none
        | some op =>
          if op.power < power then return none
          else
            advanceBy count
            let right ← p (.binary (op.power + 1))
            some <$> pushFrom origin (.binary left op right)

/-- Operations that bind at least as tightly as `power`. -/
def binary (p : Productions) (power : Nat) : Parser NodeId := do
  let origin ← start
  let first ← p .unary
  extend (operation p power origin) first

/-- A choice `a ? b : c`, or anything that binds tighter. -/
def conditional (p : Productions) : Parser NodeId := do
  let origin ← start
  let condition ← p (.binary 0)
  if ← accept .question then
    let yes ← p .expression
    expect .colon
    let no ← if startsLambda (← ahead) then lambda p else nested (p .conditional)
    pushFrom origin (.conditional condition yes no)
  else return condition

/-- The assignment operator at the head of a token list and the number of its tokens. -/
def assignmentAhead? (tokens : List Token) : Option (AssignOp × Nat) := do
  let (symbol, count) ← operatorAhead? tokens
  return (← AssignOp.ofSymbol? symbol, count)

/-- An expression: a lambda, an assignment or a choice. -/
def expression (p : Productions) : Parser NodeId :=
  nested do
    if startsLambda (← ahead) then lambda p
    else
      let origin ← start
      let target ← p .conditional
      match assignmentAhead? (← ahead) with
      | some (op, count) =>
        advanceBy count
        let value ← p .expression
        pushFrom origin (.assign target op value)
      | none => return target

end CodeMarkup.Grammar
