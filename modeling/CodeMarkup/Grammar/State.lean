import CodeMarkup.Lexer
import CodeMarkup.Tree

namespace CodeMarkup

/-!
# The state of a parse

A parse reads a list of tokens from left to right and makes nodes as it goes.  Its first fault ends
it.

* `State`: the tokens that are left, the nodes made so far, the open nesting levels.
* `Parser`: a computation on that state which may fail; the source is at hand throughout.
* `nested`: the bound on nesting.
* `many`, `listUntil`, `extend`: the loops of the grammar.  Each round takes a token, so the number
  of tokens left bounds the number of rounds.
-/

/-- The state of a parse. -/
structure State where
  /-- The tokens taken, the last one first. -/
  taken : List Token := []
  /-- The tokens left; the mark at the end is not among them. -/
  rest : List Token
  /-- The offset of the mark at the end. -/
  stop : Nat
  /-- The nodes made so far. -/
  nodes : Array Node := #[]
  /-- The offsets at which the open nesting levels start, innermost first. -/
  levels : List Nat := []

/-- The kind of the `n`-th token of a list; past its end stands the mark. -/
def kindAt (tokens : List Token) (n : Nat) : TokenKind :=
  (tokens[n]?).elim .eof Token.kind

/-- Whether one token ends where another one starts. -/
def Token.touches (a b : Token) : Bool :=
  a.span.stop == b.span.start

namespace State

/-- The state at the head of a token list that ends with its mark. -/
def ofTokens (tokens : List Token) : State :=
  { rest := tokens.dropLast, stop := tokens.getLast?.elim 0 (·.span.start) }

/-- The token that is read next. -/
def current (s : State) : Token :=
  s.rest.headD ⟨.eof, .point s.stop⟩

/-- Where the next token starts. -/
def start (s : State) : Nat :=
  s.current.span.start

/-- The last token taken, if one was. -/
def previous (s : State) : Option Token :=
  s.taken.head?

/-- Where the last token taken stops; before the first one, where that starts. -/
def previousStop (s : State) : Nat :=
  s.previous.elim s.start (·.span.stop)

/-- The span from an offset to the last token taken. -/
def spanFrom (s : State) (start : Nat) : Span :=
  ⟨start, max s.previousStop start⟩

/-- The state after the next token; there is nothing after the mark. -/
def advance (s : State) : State :=
  match s.rest with
  | [] => s
  | token :: rest => { s with taken := token :: s.taken, rest := rest }

end State

/-- A computation on the state of a parse. -/
abbrev Parser := ReaderT Source (EStateM ParseError State)

namespace Parser

/-! ### Tokens -/

/-- Fails with a fault. -/
def fail {α : Type} (fault : Fault) (span : Span) : Parser α :=
  throw ⟨fault, span⟩

/-- Fails because the next token is not what is expected. -/
def unexpected {α : Type} (expected : String) : Parser α := do
  let token := (← get).current
  fail (.unexpected expected token.kind) token.span

/-- Fails because of a bound that no text reaches. -/
def exhausted {α : Type} : Parser α := do
  fail .exhausted (← get).current.span

/-- The tokens that are left. -/
def ahead : Parser (List Token) :=
  return (← get).rest

/-- The kind of the token `n` places ahead. -/
def peek (n : Nat) : Parser TokenKind :=
  return kindAt (← get).rest n

/-- Where the next token starts. -/
def start : Parser Nat :=
  return (← get).start

/-- Whether all tokens have been taken. -/
def atEnd : Parser Bool :=
  return (← get).rest.isEmpty

/-- Takes the next token. -/
def advance : Parser Unit :=
  modify State.advance

/-- Takes two tokens. -/
def advanceTwo : Parser Unit := do
  advance
  advance

/-- Whether the next token is of a kind. -/
def check (kind : TokenKind) : Parser Bool :=
  return (← get).current.kind == kind

/-- Takes the next token if it is of a kind. -/
def accept (kind : TokenKind) : Parser Bool := do
  if ← check kind then
    advance
    return true
  else return false

/-- Takes the next token, which has to be of a kind. -/
def expect (kind : TokenKind) : Parser Unit := do
  if ← check kind then advance else unexpected kind.describe

/-- Takes a name and returns it. -/
def identifier (expected : String) : Parser String := do
  match (← get).current.kind with
  | .identifier name =>
    advance
    return name
  | _ => unexpected expected

/-- Fails unless all tokens have been taken. -/
def expectEnd : Parser Unit := do
  let s ← get
  if s.rest.isEmpty then return ()
  else fail (.trailingInput s.current.kind) s.current.span

/-! ### Nesting -/

/-- Runs a production one level deeper, unless the innermost level starts at the same token.  The
    level is closed again whether the production succeeds or fails. -/
def nested {α : Type} (production : Parser α) : Parser α := fun source s =>
  if s.levels.head? = some s.start then production source s
  else if maxNesting ≤ s.levels.length then .error ⟨.nestingTooDeep, s.current.span⟩ s
  else
    match production source { s with levels := s.start :: s.levels } with
    | .ok a s => .ok a { s with levels := s.levels.tail }
    | .error e s => .error e { s with levels := s.levels.tail }

/-- Runs a production on other tokens, and goes on with the present ones after it. -/
def onTokens {α : Type} (tokens : List Token) (production : Parser α) : Parser α := fun source s =>
  let inner := State.ofTokens tokens
  let resume (after : State) : State :=
    { after with taken := s.taken, rest := s.rest, stop := s.stop }
  match production source { inner with nodes := s.nodes, levels := s.levels } with
  | .ok a after => .ok a (resume after)
  | .error e after => .error e (resume after)

/-! ### Nodes -/

/-- Makes a node. -/
def push (kind : NodeKind) (span : Span) (unannotatedStart : Option Nat) : Parser NodeId := do
  let source ← read
  let node : Node :=
    { kind := kind, span := span, extent := source.extent span,
      unannotatedBegin := unannotatedStart.map source.position }
  modifyGet fun s => (s.nodes.size, { s with nodes := s.nodes.push node })

/-- Makes a node that runs from an offset to the last token taken. -/
def pushFrom (start : Nat) (kind : NodeKind) : Parser NodeId := do
  push kind ((← get).spanFrom start) none

/-- A node that was made. -/
def lookup (id : NodeId) : Parser Node := do
  match (← get).nodes[id]? with
  | some node => return node
  | none => exhausted

/-- The form of a node that was made. -/
def kindOf (id : NodeId) : Parser NodeKind :=
  return (← lookup id).kind

/-- The span of a node that was made. -/
def spanOf (id : NodeId) : Parser Span :=
  return (← lookup id).span

/-! ### Loops -/

/-- `many` with a bound on the number of rounds. -/
def manyWithin {α : Type} (more : Parser Bool) (item : Parser α) : Nat → Parser (List α)
  | 0 => exhausted
  | rounds + 1 => do
    if ← more then
      let first ← item
      let others ← manyWithin more item rounds
      return first :: others
    else return []

/-- Reads items as long as `more` says so. -/
def many {α : Type} (more : Parser Bool) (item : Parser α) : Parser (List α) := do
  manyWithin more item ((← ahead).length + 1)

/-- One item or more, with commas between them. -/
def commaSeparated {α : Type} (item : Parser α) : Parser (List α) := do
  let first ← item
  let others ← many (accept .comma) item
  return first :: others

/-- `listUntil` with a bound on the number of rounds. -/
def listUntilWithin {α : Type} (close separator : TokenKind) (item : Parser α) :
    Nat → Parser (List α)
  | 0 => exhausted
  | rounds + 1 => do
    if ← check close then return []
    else
      let first ← item
      if ← accept separator then
        let others ← listUntilWithin close separator item rounds
        return first :: others
      else return [first]

/-- Items with separators between them, up to a closing token, which is left.  A separator may stand
    before the closing token. -/
def listUntil {α : Type} (close separator : TokenKind) (item : Parser α) : Parser (List α) := do
  listUntilWithin close separator item ((← ahead).length + 1)

/-- `extend` with a bound on the number of rounds. -/
def extendWithin {α : Type} (step : α → Parser (Option α)) : Nat → α → Parser α
  | 0, _ => exhausted
  | rounds + 1, a => do
    match ← step a with
    | some b => extendWithin step rounds b
    | none => return a

/-- Applies a step as long as it yields something. -/
def extend {α : Type} (step : α → Parser (Option α)) (a : α) : Parser α := do
  extendWithin step ((← ahead).length + 1) a

/-- An optional part. -/
def optional {α : Type} (present : Parser Bool) (item : Parser α) : Parser (Option α) := do
  if ← present then
    let a ← item
    return some a
  else return none

/-- A part that is a list, empty if it is absent. -/
def optionalList {α : Type} (present : Parser Bool) (items : Parser (List α)) :
    Parser (List α) := do
  if ← present then items else return []

end Parser

/-- The constructs through which the grammar is recursive. -/
inductive Nonterminal where
  | expression
  | conditional
  /-- Binary operations that bind at least as tightly as `power`. -/
  | binary (power : Nat)
  | unary
  | statement
  | type
  | elementValue
  | arrayInitializer
  | bodyDeclaration
  deriving DecidableEq

/-- A parser for each construct.  Productions take one for the constructs inside their own. -/
abbrev Productions := Nonterminal → Parser NodeId

end CodeMarkup
