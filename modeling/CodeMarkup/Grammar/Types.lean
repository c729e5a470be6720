import CodeMarkup.Grammar.Lookahead

namespace CodeMarkup.Grammar

open CodeMarkup.Parser

/-!
# Types

Primitive and named types with type arguments and array dimensions, and type parameters.
-/

/-- Array dimensions `[]` after a type that starts at an offset; each wraps the type once more. -/
def arrayDims (start : Nat) : NodeId → Parser NodeId :=
  extend fun type => do
    if startsDim (← ahead) then
      advanceTwo
      let wrapped ← pushFrom start (.arrayType type)
      return some wrapped
    else return none

/-- A type argument: a type, or a wildcard with at most one bound. -/
def typeArgument (p : Productions) : Parser NodeId := do
  if ← check .question then
    let origin ← start
    advance
    if ← accept (.keyword .kwExtends) then
      let bound ← p .type
      pushFrom origin (.wildcardType (some bound) none)
    else if ← accept (.keyword .kwSuper) then
      let bound ← p .type
      pushFrom origin (.wildcardType none (some bound))
    else pushFrom origin (.wildcardType none none)
  else p .type

/-- Type arguments between `<` and `>`, possibly none. -/
def typeArguments (p : Productions) : Parser (List NodeId) := do
  expect (.operator "<")
  if ← accept (.operator ">") then return []
  else
    let arguments ← commaSeparated (typeArgument p)
    expect (.operator ">")
    return arguments

/-- One name of a dotted type, within the type named before it. -/
def typeSegment (p : Productions) (origin : Nat) (scope : Option NodeId) : Parser NodeId := do
  let name ← identifier "type name"
  let arguments ← optional (check (.operator "<")) (typeArguments p)
  pushFrom origin (.classType scope name arguments)

/-- A named type `a.b.C<T>.D`. -/
def classType (p : Productions) : Parser NodeId := do
  let origin ← start
  let first ← typeSegment p origin none
  extend (fun scope => do
    if startsMember (← ahead) then
      advance
      let inner ← typeSegment p origin (some scope)
      return some inner
    else return none) first

/-- A type without array dimensions. -/
def nonArrayType (p : Productions) : Parser NodeId := do
  match ← peek 0 with
  | .keyword word =>
    if word.isPrimitive then
      let origin ← start
      advance
      pushFrom origin (.primitiveType word)
    else unexpected "type"
  | .identifier _ => classType p
  | _ => unexpected "type"

/-- A type. -/
def type (p : Productions) : Parser NodeId :=
  nested do
    let origin ← start
    let base ← nonArrayType p
    arrayDims origin base

/-- A type, or `void`. -/
def typeOrVoid (p : Productions) : Parser NodeId := do
  if ← check (.keyword .kwVoid) then
    let origin ← start
    advance
    pushFrom origin .voidType
  else p .type

/-- Types with commas between them. -/
def typeList (p : Productions) : Parser (List NodeId) :=
  commaSeparated (p .type)

/-- A type parameter with its bounds. -/
def typeParameter (p : Productions) : Parser NodeId := do
  let origin ← start
  let name ← identifier "type parameter"
  let bounds ← optionalList (accept (.keyword .kwExtends)) do
    let first ← p .type
    let others ← many (accept (.operator "&")) (p .type)
    return first :: others
  pushFrom origin (.typeParameter name bounds)

/-- Type parameters between `<` and `>`. -/
def typeParameters (p : Productions) : Parser (List NodeId) := do
  expect (.operator "<")
  let parameters ← commaSeparated (typeParameter p)
  expect (.operator ">")
  return parameters

end CodeMarkup.Grammar
