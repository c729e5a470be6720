import CodeMarkup.Grammar.Expressions

namespace CodeMarkup.Grammar

open CodeMarkup.Parser

/-!
# Declarations

Files, imports, types and their members.
-/

/-! ### Types -/

/-- A class or an interface, from its keyword on. -/
def classDeclaration (p : Productions) (front : Modifiers) (isInterface : Bool) :
    Parser NodeId := do
  advance
  let name ← identifier "type name"
  let parameters ← optionalList (check (.operator "<")) (typeParameters p)
  let extended ← optionalList (accept (.keyword .kwExtends)) (typeList p)
  let implemented ← optionalList (accept (.keyword .kwImplements)) (typeList p)
  let found ← classBody p
  pushModified front
    (.classDeclaration front.annotations front.keywords isInterface name parameters extended
      implemented found)

/-- A constant of an enum. -/
def enumConstant (p : Productions) : Parser NodeId := do
  let front ← modifiers p
  let name ← identifier "enum constant"
  let found ← optionalList (check .leftParen) (arguments p)
  let body ← optional (check .leftBrace) (classBody p)
  pushModified front (.enumConstant front.annotations name found body)

/-- `enumEntries` with a bound on the number of rounds. -/
def enumEntriesWithin (p : Productions) : Nat → Parser (List NodeId)
  | 0 => exhausted
  | rounds + 1 => do
    if (← check .semicolon) || (← check .rightBrace) then return []
    else
      let first ← enumConstant p
      if ← accept .comma then
        let others ← enumEntriesWithin p rounds
        return first :: others
      else return [first]

/-- The constants of an enum, up to a semicolon or the closing brace. -/
def enumEntries (p : Productions) : Parser (List NodeId) := do
  enumEntriesWithin p ((← ahead).length + 1)

/-- An enum, from its keyword on. -/
def enumDeclaration (p : Productions) (front : Modifiers) : Parser NodeId := do
  expect (.keyword .kwEnum)
  let name ← identifier "enum name"
  let implemented ← optionalList (accept (.keyword .kwImplements)) (typeList p)
  expect .leftBrace
  let entries ← enumEntries p
  let found ← optionalList (accept .semicolon) (members p)
  expect .rightBrace
  pushModified front
    (.enumDeclaration front.annotations front.keywords name implemented entries found)

/-- A class, interface or enum after its modifiers. -/
def typeDeclaration (p : Productions) (front : Modifiers) : Parser NodeId :=
  nested do
    match ← peek 0 with
    | .keyword .kwClass => classDeclaration p front false
    | .keyword .kwInterface => classDeclaration p front true
    | .keyword .kwEnum => enumDeclaration p front
    | _ => unexpected "'class', 'interface' or 'enum'"

/-! ### Members -/

/-- Parameters in parentheses. -/
def parameters (p : Productions) : Parser (List NodeId) := do
  expect .leftParen
  let found ← listUntil .rightParen .comma (parameter p)
  expect .rightParen
  return found

/-- The types that a method may throw. -/
def thrownTypes (p : Productions) : Parser (List NodeId) :=
  optionalList (accept (.keyword .kwThrows)) (typeList p)

/-- A constructor, from its name on. -/
def constructorDeclaration (p : Productions) (front : Modifiers) (typeParams : List NodeId) :
    Parser NodeId := do
  let name ← identifier "constructor name"
  let params ← parameters p
  let thrown ← thrownTypes p
  let body ← block p
  pushModified front
    (.constructorDeclaration front.annotations front.keywords typeParams name params thrown body)

/-- The body of a method.  A semicolon stands for none, and so does the default of an annotation
    member, whose value is read and then left out of the tree. -/
def methodBody (p : Productions) : Parser (Option NodeId) := do
  if ← accept .semicolon then return none
  else if ← accept (.keyword .kwDefault) then
    discard (p .elementValue)
    expect .semicolon
    return none
  else some <$> block p

/-- A method, from its parameters on.  Dimensions after the parameters belong to the result. -/
def methodDeclaration (p : Productions) (front : Modifiers) (typeParams : List NodeId)
    (returnType : NodeId) (name : String) : Parser NodeId := do
  let params ← parameters p
  let returnType ← arrayDims (← spanOf returnType).start returnType
  let thrown ← thrownTypes p
  let body ← methodBody p
  pushModified front
    (.methodDeclaration front.annotations front.keywords typeParams returnType name params thrown
      body)

/-- Whether a form is `void`. -/
def isVoid : NodeKind → Bool
  | .voidType => true
  | _ => false

/-- A field, from the rest of its first variable on. -/
def fieldDeclaration (p : Productions) (front : Modifiers) (type : NodeId) (name : String)
    (nameStart : Nat) : Parser NodeId := do
  let first ← declaratorRest p name nameStart
  let others ← many (accept .comma) (declarator p)
  expect .semicolon
  pushModified front (.fieldDeclaration front.annotations front.keywords type (first :: others))

/-- A method or a field, after its modifiers and type parameters. -/
def methodOrField (p : Productions) (front : Modifiers) (typeParams : List NodeId) :
    Parser NodeId := do
  let type ← typeOrVoid p
  let nameStart ← start
  let name ← identifier "member name"
  if ← check .leftParen then methodDeclaration p front typeParams type name
  else if !typeParams.isEmpty || isVoid (← kindOf type) then
    unexpected TokenKind.leftParen.describe
  else fieldDeclaration p front type name nameStart

/-- A member of a class: an initializer, a type, a constructor, a method or a field. -/
def bodyDeclaration (p : Productions) : Parser NodeId := do
  let origin ← start
  let tokens ← ahead
  if kindAt tokens 0 == .leftBrace then
    let body ← block p
    pushFrom origin (.initializer false body)
  else if kindAt tokens 0 == .keyword .kwStatic && kindAt tokens 1 == .leftBrace then
    advance
    let body ← block p
    pushFrom origin (.initializer true body)
  else
    let front ← modifiers p
    if (← peek 0).opensType then typeDeclaration p front
    else
      let typeParams ← optionalList (check (.operator "<")) (typeParameters p)
      if (← peek 0).isIdentifier && (← peek 1) == .leftParen then
        constructorDeclaration p front typeParams
      else methodOrField p front typeParams

/-! ### Files -/

/-- The declaration of a package. -/
def packageDeclaration (p : Productions) : Parser NodeId := do
  let origin ← start
  let annotations ← many (check .at) (annotationUse p)
  let front : Modifiers := { annotations := annotations, start := origin }
  let front := front.settle (← start)
  expect (.keyword .kwPackage)
  let name ← qualifiedName
  expect .semicolon
  pushModified front (.packageDeclaration annotations name)

/-- An import. -/
def importDeclaration : Parser NodeId := do
  let origin ← start
  expect (.keyword .kwImport)
  let isStatic ← accept (.keyword .kwStatic)
  let name ← qualifiedName
  let isAsterisk := (← peek 0) == .dot && (← peek 1) == .operator "*"
  if isAsterisk then advanceTwo
  expect .semicolon
  pushFrom origin (.importDeclaration name isStatic isAsterisk)

/-- A file: package, imports and types. -/
def compilationUnit (p : Productions) : Parser NodeId := do
  let origin ← start
  let package ← optional (return startsPackage (← ahead)) (packageDeclaration p)
  let imports ← many (check (.keyword .kwImport)) importDeclaration
  let types ← many (return !(← atEnd)) do
    if ← accept .semicolon then return none
    else
      let front ← modifiers p
      let type ← typeDeclaration p front
      return some type
  pushFrom origin (.compilationUnit package imports (types.filterMap id))

end CodeMarkup.Grammar
