import CodeMarkup.Grammar.Modifiers
import CodeMarkup.Grammar.Types

namespace CodeMarkup.Grammar

open CodeMarkup.Parser

/-!
# Variables and parameters

The parts that declarations and statements share.
-/

/-- Values between braces, which may nest. -/
def arrayInitializer (p : Productions) : Parser NodeId :=
  nested do
    let origin ← start
    expect .leftBrace
    let values ← listUntil .rightBrace .comma do
      if ← check .leftBrace then p .arrayInitializer else p .expression
    expect .rightBrace
    pushFrom origin (.arrayInitializer values)

/-- What follows the name of a variable: dimensions and an initial value. -/
def declaratorRest (p : Productions) (name : String) (origin : Nat) : Parser NodeId := do
  let dims ← many (return startsDim (← ahead)) advanceTwo
  let init ← optional (accept (.operator "=")) do
    if ← check .leftBrace then p .arrayInitializer else p .expression
  pushFrom origin (.declarator name dims.length init)

/-- A variable. -/
def declarator (p : Productions) : Parser NodeId := do
  let origin ← start
  let name ← identifier "variable name"
  declaratorRest p name origin

/-- A declaration of variables without the semicolon. -/
def localVariables (p : Productions) : Parser NodeId := do
  let front ← modifiers p
  let type ← p .type
  let declared ← commaSeparated (declarator p)
  pushModified front (.localVariables front.annotations front.keywords type declared)

/-- A parameter with its type; dimensions may follow the name. -/
def parameter (p : Productions) : Parser NodeId := do
  let front ← modifiers p
  let typeStart ← start
  let type ← p .type
  let isVarargs ← accept .ellipsis
  let name ← identifier "parameter name"
  let type ← arrayDims typeStart type
  pushModified front (.parameterDecl front.annotations front.keywords (some type) isVarargs name)

end CodeMarkup.Grammar
