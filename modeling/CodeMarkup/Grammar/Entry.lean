import CodeMarkup.Grammar.Statements
import CodeMarkup.Text.Join

namespace CodeMarkup

/-!
# Parsing a text

The grammar ties its productions together, and a parse reads a whole text from one of its entry
points.

* `Grammar.derive`: the productions, each with the others inside it.
* `EntryPoint`: where a parse starts.
* `Source.parse`: the tree of a text.
-/

namespace Grammar

/-- The production of each construct, given productions for the constructs inside it. -/
def step (p : Productions) : Productions
  | .expression => expression p
  | .conditional => conditional p
  | .binary power => binary p power
  | .unary => unary p
  | .statement => statement p
  | .type => type p
  | .elementValue => elementValue p
  | .arrayInitializer => arrayInitializer p
  | .bodyDeclaration => bodyDeclaration p

/-- The productions, nested at most `fuel` deep. -/
def derive : Nat → Productions
  | 0, _ => Parser.exhausted
  | fuel + 1, construct => step (derive fuel) construct

end Grammar

/-- Where a parse starts. -/
inductive EntryPoint where
  | compilationUnit | block | statement | type | expression | importDeclaration | annotationUse
  | bodyDeclaration | tag | json
  deriving DecidableEq, Repr

namespace EntryPoint

/-- Every entry point. -/
def all : List EntryPoint :=
  [.compilationUnit, .block, .statement, .type, .expression, .importDeclaration, .annotationUse,
    .bodyDeclaration, .tag, .json]

/-- The name of an entry point. -/
def text : EntryPoint → String
  | .compilationUnit => "compilation-unit"
  | .block => "block"
  | .statement => "statement"
  | .type => "type"
  | .expression => "expression"
  | .importDeclaration => "import"
  | .annotationUse => "annotation"
  | .bodyDeclaration => "body-declaration"
  | .tag => "tag"
  | .json => "json"

/-- The entry point with a name. -/
def ofText? (text : String) : Option EntryPoint :=
  all.find? (·.text == text)

/-- What is said of a name that no entry point has. -/
def unknownMessage (text : String) : String :=
  "unknown entry point '" ++ text ++ "', expected one of: "
    ++ joinWith ", " (all.map EntryPoint.text)

/-- The production of an entry point, given the productions inside it. -/
def production (p : Productions) : EntryPoint → Parser NodeId
  | .compilationUnit => Grammar.compilationUnit p
  | .block => Grammar.block p
  | .statement => p .statement
  | .type => Grammar.typeOrVoid p
  | .expression => p .expression
  | .importDeclaration => Grammar.importDeclaration
  | .annotationUse => Grammar.annotationUse p
  | .bodyDeclaration => p .bodyDeclaration
  | .tag => Grammar.tag p
  | .json => Grammar.jsonDocument p

end EntryPoint

namespace Source

/-- A bound on how deep the productions nest: of eight that are nested in each other, at least one
    takes a token, and an interpolation lies inside its template. -/
def nestingFuel (source : Source) : Nat :=
  8 * (source.size + 2)

/-- Parses the whole text from an entry point. -/
def parse (source : Source) (entry : EntryPoint) : Except ParseError Tree := do
  let tokens ← source.tokens
  let whole : Parser NodeId := do
    let root ← entry.production (Grammar.derive source.nestingFuel)
    Parser.expectEnd
    return root
  match whole source (.ofTokens tokens) with
  | .ok root s => return ⟨source, s.nodes, root⟩
  | .error error _ => throw error

end Source

end CodeMarkup
