import CodeMarkup.Grammar.Lookahead

namespace CodeMarkup.Grammar

open CodeMarkup.Parser

/-!
# Names, annotations and modifiers

What stands in front of declarations.  A declaration begins with its annotations; the place where it
begins without them is kept too, since comments may be placed by either.
-/

/-- A dotted name. -/
def qualifiedName : Parser NodeId := do
  let origin ← start
  let first ← identifier "name"
  let head ← pushFrom origin (.simpleName first)
  extend (fun qualifier => do
    if startsMember (← ahead) then
      advance
      let segment ← identifier "name"
      let name ← pushFrom origin (.qualifiedName qualifier segment)
      return some name
    else return none) head

/-- A named value of an annotation. -/
def memberValue (p : Productions) : Parser NodeId := do
  let origin ← start
  let key ← identifier "annotation member"
  expect (.operator "=")
  let value ← p .elementValue
  pushFrom origin (.memberValue key value)

/-- The arguments of an annotation, after the opening parenthesis: named values, one value, or
    nothing. -/
def annotationArguments (p : Productions) : Parser (Option NodeId × List NodeId) := do
  let tokens ← ahead
  if (kindAt tokens 0).isIdentifier && kindAt tokens 1 == .operator "=" then
    let pairs ← commaSeparated (memberValue p)
    return (none, pairs)
  else if ← check .rightParen then return (none, [])
  else
    let value ← p .elementValue
    return (some value, [])

/-- An annotation. -/
def annotationUse (p : Productions) : Parser NodeId :=
  nested do
    let origin ← start
    expect .at
    let name ← qualifiedName
    if ← accept .leftParen then
      let (value, pairs) ← annotationArguments p
      expect .rightParen
      pushFrom origin (.annotationUse name value pairs)
    else pushFrom origin (.annotationUse name none [])

/-- Values between braces. -/
def elementValueArray (p : Productions) : Parser NodeId :=
  nested do
    let origin ← start
    expect .leftBrace
    let values ← listUntil .rightBrace .comma (p .elementValue)
    expect .rightBrace
    pushFrom origin (.arrayInitializer values)

/-- The value of an annotation member: an annotation, values between braces, or an expression that
    is no assignment. -/
def elementValue (p : Productions) : Parser NodeId := do
  match ← peek 0 with
  | .at => annotationUse p
  | .leftBrace => elementValueArray p
  | _ => p .conditional

/-- Annotations and modifiers in front of a declaration. -/
structure Modifiers where
  /-- The annotations. -/
  annotations : List NodeId := []
  /-- The modifier keywords. -/
  keywords : List Keyword := []
  /-- Where the declaration starts. -/
  start : Nat
  /-- Where it starts after the last annotation, if there is one. -/
  unannotatedStart : Option Nat := none

/-- Makes a node that starts with some modifiers. -/
def pushModified (modifiers : Modifiers) (kind : NodeKind) : Parser NodeId := do
  push kind ((← get).spanFrom modifiers.start) modifiers.unannotatedStart

/-- The modifiers with the start of what follows the last annotation, if that is still open. -/
def Modifiers.settle (modifiers : Modifiers) (offset : Nat) : Modifiers :=
  if modifiers.annotations.isEmpty || modifiers.unannotatedStart.isSome then modifiers
  else { modifiers with unannotatedStart := some offset }

/-- Annotations and modifier keywords in any order. -/
def modifiers (p : Productions) : Parser Modifiers := do
  let origin ← start
  let found ← extend (fun (found : Modifiers) => do
    match ← peek 0 with
    | .at =>
      if (← peek 1) == .keyword .kwInterface then return none
      else
        let use ← annotationUse p
        return some
          { found with annotations := found.annotations ++ [use], unannotatedStart := none }
    | .keyword word =>
      if word.isModifier then
        let settled := found.settle (← start)
        advance
        return some { settled with keywords := settled.keywords ++ [word] }
      else return none
    | _ => return none) { start := origin }
  return found.settle (← start)

end CodeMarkup.Grammar
