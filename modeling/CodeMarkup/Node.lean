import CodeMarkup.Comment
import CodeMarkup.Keyword
import CodeMarkup.Operator

namespace CodeMarkup

/-!
# Nodes

A syntax tree is kept as a sequence of nodes, and a node refers to others by their index in it.

* `NodeKind`: one constructor per syntactic form.
* `NodeKind.children`, `NodeKind.annotations`: the nodes that a node refers to, in source order.
* `Node`: a form with its place in the source and its comments.
-/

/-- The index of a node in its tree. -/
abbrev NodeId := Nat

/-- A literal, spelled as in the source. -/
inductive Literal where
  | integer (text : String)
  | long (text : String)
  | double (text : String)
  | char (text : String)
  | string (text : String)
  | boolean (value : Bool)
  | null
  deriving DecidableEq, Inhabited

/-- The families of syntactic forms. -/
inductive NodeCategory where
  | declaration | type | statement | expression | annotationPart | markup
  deriving DecidableEq, Inhabited

/-- The syntactic forms. -/
inductive NodeKind where
  -- Declarations
  /-- A file: package, imports, types. -/
  | compilationUnit (package : Option NodeId) (imports types : List NodeId)
  | packageDeclaration (annotations : List NodeId) (name : NodeId)
  | importDeclaration (name : NodeId) (isStatic isAsterisk : Bool)
  /-- A class, or an interface. -/
  | classDeclaration (annotations : List NodeId) (modifiers : List Keyword) (isInterface : Bool)
      (name : String) (typeParameters extended implemented members : List NodeId)
  | enumDeclaration (annotations : List NodeId) (modifiers : List Keyword) (name : String)
      (implemented entries members : List NodeId)
  /-- A constant of an enum; a body may be present and empty. -/
  | enumConstant (annotations : List NodeId) (name : String) (arguments : List NodeId)
      (body : Option (List NodeId))
  | fieldDeclaration (annotations : List NodeId) (modifiers : List Keyword) (type : NodeId)
      (declarators : List NodeId)
  | methodDeclaration (annotations : List NodeId) (modifiers : List Keyword)
      (typeParameters : List NodeId) (returnType : NodeId) (name : String)
      (parameters thrown : List NodeId) (body : Option NodeId)
  | constructorDeclaration (annotations : List NodeId) (modifiers : List Keyword)
      (typeParameters : List NodeId) (name : String) (parameters thrown : List NodeId)
      (body : NodeId)
  /-- A block among the members of a class. -/
  | initializer (isStatic : Bool) (body : NodeId)
  /-- A parameter of a method, constructor, catch clause or lambda; a lambda's may lack the type. -/
  | parameterDecl (annotations : List NodeId) (modifiers : List Keyword) (type : Option NodeId)
      (isVarargs : Bool) (name : String)
  | typeParameter (name : String) (bounds : List NodeId)
  /-- One variable of a declaration, with its own array dimensions. -/
  | declarator (name : String) (arrayDims : Nat) (init : Option NodeId)
  -- Types
  | primitiveType (word : Keyword)
  | voidType
  /-- A named type.  No type arguments and the empty list `<>` differ. -/
  | classType (scope : Option NodeId) (name : String) (typeArguments : Option (List NodeId))
  | arrayType (component : NodeId)
  | wildcardType (upper lower : Option NodeId)
  /-- The alternatives of a catch clause. -/
  | unionType (elements : List NodeId)
  -- Statements
  | block (statements : List NodeId)
  | expressionStmt (expression : NodeId)
  | ifStmt (condition thenStmt : NodeId) (elseStmt : Option NodeId)
  | whileStmt (condition body : NodeId)
  | doStmt (body condition : NodeId)
  | forStmt (init : List NodeId) (compare : Option NodeId) (update : List NodeId) (body : NodeId)
  | forEachStmt (element iterable body : NodeId)
  | returnStmt (expression : Option NodeId)
  | breakStmt (label : Option String)
  | continueStmt (label : Option String)
  | throwStmt (expression : NodeId)
  | tryStmt (resources : List NodeId) (tryBlock : NodeId) (catchClauses : List NodeId)
      (finallyBlock : Option NodeId)
  | catchClause (parameter body : NodeId)
  | switchStmt (selector : NodeId) (entries : List NodeId)
  /-- A label with its statements; the default has no label. -/
  | switchEntry (label : Option NodeId) (statements : List NodeId)
  | synchronizedStmt (lock body : NodeId)
  | labeledStmt (label : String) (statement : NodeId)
  | assertStmt (check : NodeId) (message : Option NodeId)
  /-- A call of another constructor as a statement. -/
  | constructorCall (isThis : Bool) (arguments : List NodeId)
  /-- A type declared among statements. -/
  | localType (declaration : NodeId)
  | emptyStmt
  -- Expressions
  | simpleName (name : String)
  /-- A dotted name of a package, an import or an annotation. -/
  | qualifiedName (qualifier : NodeId) (name : String)
  | fieldAccess (scope : NodeId) (field : String)
  | methodCall (scope : Option NodeId) (typeArguments : List NodeId) (name : String)
      (arguments : List NodeId)
  | arrayAccess (array index : NodeId)
  | arrayCreation (elementType : NodeId) (dimensions : List NodeId) (extraDims : Nat)
      (init : Option NodeId)
  | arrayInitializer (values : List NodeId)
  | objectCreation (scope : Option NodeId) (type : NodeId) (arguments : List NodeId)
      (body : Option (List NodeId))
  | assign (target : NodeId) (op : AssignOp) (value : NodeId)
  | binary (left : NodeId) (op : BinaryOp) (right : NodeId)
  | unary (op : UnaryOp) (operand : NodeId)
  | conditional (condition thenExpr elseExpr : NodeId)
  | cast (type expression : NodeId)
  | instanceOf (expression type : NodeId)
  /-- An expression in parentheses. -/
  | enclosed (inner : NodeId)
  | classLiteral (type : NodeId)
  | thisExpr (qualifier : Option NodeId)
  | superExpr (qualifier : Option NodeId)
  | lambda (parameters : List NodeId) (body : NodeId) (parenthesized : Bool)
  | methodReference (scope : NodeId) (identifier : String)
  | literal (value : Literal)
  /-- Variables declared in a statement, a loop header or a resource list. -/
  | localVariables (annotations : List NodeId) (modifiers : List Keyword) (type : NodeId)
      (declarators : List NodeId)
  -- Annotations
  /-- An annotation, with one value or with named values. -/
  | annotationUse (name : NodeId) (value : Option NodeId) (pairs : List NodeId)
  | memberValue (name : String) (value : NodeId)
  -- Markup
  /-- A tag; `<a/>` has no body, `<a></a>` an empty one. -/
  | tag (name : String) (attributes : List NodeId) (body : Option NodeId)
  /-- An attribute of a tag; a bare name has no value. -/
  | tagAttribute (name : String) (value : Option NodeId)
  | tagBody (children : List NodeId)
  /-- An object, or an array, whose entries have no keys. -/
  | json (isArray : Bool) (pairs : List NodeId)
  | jsonEntry (key : Option NodeId) (value : NodeId)
  /-- Text between backticks with its interpolated expressions. -/
  | template (raw : String) (interpolations : List NodeId)

/-- The name of a family. -/
def NodeCategory.name : NodeCategory → String
  | .declaration => "Declaration"
  | .type => "Type"
  | .statement => "Statement"
  | .expression => "Expression"
  | .annotationPart => "Annotation"
  | .markup => "Markup"

namespace NodeKind

/-- The nodes that a node refers to, in source order. -/
def children : NodeKind → List NodeId
  | .compilationUnit package imports types => package.toList ++ imports ++ types
  | .packageDeclaration annotations name => annotations ++ [name]
  | .importDeclaration name _ _ => [name]
  | .classDeclaration annotations _ _ _ typeParameters extended implemented members =>
    annotations ++ typeParameters ++ extended ++ implemented ++ members
  | .enumDeclaration annotations _ _ implemented entries members =>
    annotations ++ implemented ++ entries ++ members
  | .enumConstant annotations _ arguments body => annotations ++ arguments ++ body.getD []
  | .fieldDeclaration annotations _ type declarators => annotations ++ type :: declarators
  | .methodDeclaration annotations _ typeParameters returnType _ parameters thrown body =>
    annotations ++ typeParameters ++ returnType :: parameters ++ thrown ++ body.toList
  | .constructorDeclaration annotations _ typeParameters _ parameters thrown body =>
    annotations ++ typeParameters ++ parameters ++ thrown ++ [body]
  | .initializer _ body => [body]
  | .parameterDecl annotations _ type _ _ => annotations ++ type.toList
  | .typeParameter _ bounds => bounds
  | .declarator _ _ init => init.toList
  | .classType scope _ typeArguments => scope.toList ++ typeArguments.getD []
  | .arrayType component => [component]
  | .wildcardType upper lower => upper.toList ++ lower.toList
  | .unionType elements => elements
  | .block statements => statements
  | .expressionStmt expression => [expression]
  | .ifStmt condition thenStmt elseStmt => condition :: thenStmt :: elseStmt.toList
  | .whileStmt condition body => [condition, body]
  | .doStmt body condition => [body, condition]
  | .forStmt init compare update body => init ++ compare.toList ++ update ++ [body]
  | .forEachStmt element iterable body => [element, iterable, body]
  | .returnStmt expression => expression.toList
  | .throwStmt expression => [expression]
  | .tryStmt resources tryBlock catchClauses finallyBlock =>
    resources ++ tryBlock :: catchClauses ++ finallyBlock.toList
  | .catchClause parameter body => [parameter, body]
  | .switchStmt selector entries => selector :: entries
  | .switchEntry label statements => label.toList ++ statements
  | .synchronizedStmt lock body => [lock, body]
  | .labeledStmt _ statement => [statement]
  | .assertStmt check message => check :: message.toList
  | .constructorCall _ arguments => arguments
  | .localType declaration => [declaration]
  | .qualifiedName qualifier _ => [qualifier]
  | .fieldAccess scope _ => [scope]
  | .methodCall scope typeArguments _ arguments => scope.toList ++ typeArguments ++ arguments
  | .arrayAccess array index => [array, index]
  | .arrayCreation elementType dimensions _ init => elementType :: dimensions ++ init.toList
  | .arrayInitializer values => values
  | .objectCreation scope type arguments body => scope.toList ++ type :: arguments ++ body.getD []
  | .assign target _ value => [target, value]
  | .binary left _ right => [left, right]
  | .unary _ operand => [operand]
  | .conditional condition thenExpr elseExpr => [condition, thenExpr, elseExpr]
  | .cast type expression => [type, expression]
  | .instanceOf expression type => [expression, type]
  | .enclosed inner => [inner]
  | .classLiteral type => [type]
  | .thisExpr qualifier => qualifier.toList
  | .superExpr qualifier => qualifier.toList
  | .lambda parameters body _ => parameters ++ [body]
  | .methodReference scope _ => [scope]
  | .localVariables annotations _ type declarators => annotations ++ type :: declarators
  | .annotationUse name value pairs => name :: value.toList ++ pairs
  | .memberValue _ value => [value]
  | .tag _ attributes body => attributes ++ body.toList
  | .tagAttribute _ value => value.toList
  | .tagBody children => children
  | .json _ pairs => pairs
  | .jsonEntry key value => key.toList ++ [value]
  | .template _ interpolations => interpolations
  | _ => []

/-- The annotations in front of a construct. -/
def annotations : NodeKind → List NodeId
  | .packageDeclaration annotations _
  | .classDeclaration annotations _ _ _ _ _ _ _
  | .enumDeclaration annotations _ _ _ _ _
  | .enumConstant annotations _ _ _
  | .fieldDeclaration annotations _ _ _
  | .methodDeclaration annotations _ _ _ _ _ _ _
  | .constructorDeclaration annotations _ _ _ _ _ _
  | .parameterDecl annotations _ _ _ _
  | .localVariables annotations _ _ _ => annotations
  | _ => []

/-- The name of a syntactic form. -/
def formName : NodeKind → String
  | .compilationUnit .. => "CompilationUnit"
  | .packageDeclaration .. => "PackageDeclaration"
  | .importDeclaration .. => "ImportDeclaration"
  | .classDeclaration .. => "ClassOrInterfaceDeclaration"
  | .enumDeclaration .. => "EnumDeclaration"
  | .enumConstant .. => "EnumConstantDeclaration"
  | .fieldDeclaration .. => "FieldDeclaration"
  | .methodDeclaration .. => "MethodDeclaration"
  | .constructorDeclaration .. => "ConstructorDeclaration"
  | .initializer .. => "InitializerDeclaration"
  | .parameterDecl .. => "Parameter"
  | .typeParameter .. => "TypeParameter"
  | .declarator .. => "VariableDeclarator"
  | .primitiveType .. => "PrimitiveType"
  | .voidType => "VoidType"
  | .classType .. => "ClassOrInterfaceType"
  | .arrayType .. => "ArrayType"
  | .wildcardType .. => "WildcardType"
  | .unionType .. => "UnionType"
  | .block .. => "Block"
  | .expressionStmt .. => "ExpressionStmt"
  | .ifStmt .. => "If"
  | .whileStmt .. => "While"
  | .doStmt .. => "Do"
  | .forStmt .. => "For"
  | .forEachStmt .. => "ForEach"
  | .returnStmt .. => "Return"
  | .breakStmt .. => "Break"
  | .continueStmt .. => "Continue"
  | .throwStmt .. => "Throw"
  | .tryStmt .. => "Try"
  | .catchClause .. => "CatchClause"
  | .switchStmt .. => "Switch"
  | .switchEntry .. => "SwitchEntry"
  | .synchronizedStmt .. => "Synchronized"
  | .labeledStmt .. => "Labeled"
  | .assertStmt .. => "Assert"
  | .constructorCall .. => "ExplicitConstructorInvocation"
  | .localType .. => "TypeDeclarationStmt"
  | .emptyStmt => "Empty"
  | .simpleName .. => "Name"
  | .qualifiedName .. => "QualifiedName"
  | .fieldAccess .. => "FieldAccess"
  | .methodCall .. => "MethodCall"
  | .arrayAccess .. => "ArrayAccess"
  | .arrayCreation .. => "ArrayCreation"
  | .arrayInitializer .. => "ArrayInitializer"
  | .objectCreation .. => "ObjectCreation"
  | .assign .. => "Assign"
  | .binary .. => "Binary"
  | .unary .. => "Unary"
  | .conditional .. => "Conditional"
  | .cast .. => "Cast"
  | .instanceOf .. => "InstanceOf"
  | .enclosed .. => "Enclosed"
  | .classLiteral .. => "ClassExpr"
  | .thisExpr .. => "This"
  | .superExpr .. => "Super"
  | .lambda .. => "Lambda"
  | .methodReference .. => "MethodReference"
  | .literal .. => "Literal"
  | .localVariables .. => "VariableDeclarationExpr"
  | .annotationUse .. => "Annotation"
  | .memberValue .. => "MemberValuePair"
  | .tag .. => "UiContainer"
  | .tagAttribute .. => "UiAttribute"
  | .tagBody .. => "UiBody"
  | .json .. => "JsonContainer"
  | .jsonEntry .. => "JsonPair"
  | .template .. => "TemplateLiteral"

/-- The family of a syntactic form. -/
def category : NodeKind → NodeCategory
  | .compilationUnit .. | .packageDeclaration .. | .importDeclaration .. | .classDeclaration ..
  | .enumDeclaration .. | .enumConstant .. | .fieldDeclaration .. | .methodDeclaration ..
  | .constructorDeclaration .. | .initializer .. | .parameterDecl .. | .typeParameter ..
  | .declarator .. => .declaration
  | .primitiveType .. | .voidType | .classType .. | .arrayType .. | .wildcardType ..
  | .unionType .. => .type
  | .block .. | .expressionStmt .. | .ifStmt .. | .whileStmt .. | .doStmt .. | .forStmt ..
  | .forEachStmt .. | .returnStmt .. | .breakStmt .. | .continueStmt .. | .throwStmt ..
  | .tryStmt .. | .catchClause .. | .switchStmt .. | .switchEntry .. | .synchronizedStmt ..
  | .labeledStmt .. | .assertStmt .. | .constructorCall .. | .localType ..
  | .emptyStmt => .statement
  | .annotationUse .. | .memberValue .. => .annotationPart
  | .tag .. | .tagAttribute .. | .tagBody .. | .json .. | .jsonEntry .. | .template .. => .markup
  | _ => .expression

end NodeKind

/-- A node of a tree. -/
structure Node where
  /-- The syntactic form. -/
  kind : NodeKind
  /-- The bytes it covers. -/
  span : Span
  /-- The positions it covers. -/
  extent : Extent
  /-- The position of the first token after the annotations in front, if there are any. -/
  unannotatedBegin : Option Position := none
  /-- The comment attached to the node. -/
  comment : Option Comment := none
  /-- Comments inside the node that belong to none of its parts. -/
  orphans : List Comment := []

namespace Node

/-- What is read where there is no node. -/
def blank : Node :=
  { kind := .emptyStmt, span := .point 0, extent := ⟨.origin, .origin⟩ }

/-- Where the node begins once the annotations in front of it are left out. -/
def beginWithoutAnnotations (node : Node) : Position :=
  node.unannotatedBegin.getD node.extent.first

/-- Every comment that the node holds. -/
def comments (node : Node) : List Comment :=
  node.comment.toList ++ node.orphans

end Node

end CodeMarkup
