import CodeMarkup.Grammar.Interpolation
import CodeMarkup.Grammar.Lookahead

namespace CodeMarkup.Grammar

open CodeMarkup.Parser

/-!
# Markup

Tags, json containers and templates, which stand among expressions.
-/

/-! ### Tags -/

/-- A name of a tag, an attribute or a key: words, reserved or not, joined by dashes that touch
    them. -/
def markupName (expected : String) : Parser String := do
  match (← peek 0).word? with
  | none => unexpected expected
  | some first =>
    advance
    extend (fun name => do
      match (← get).previous, ← ahead with
      | some before, dash :: word :: _ =>
        if dash.kind == .operator "-" && before.touches dash && dash.touches word then
          match word.kind.word? with
          | some text =>
            advanceTwo
            return some (name ++ "-" ++ text)
          | none => return none
        else return none
      | _, _ => return none) first

/-- An attribute: a name, and possibly a value. -/
def tagAttribute (p : Productions) : Parser NodeId := do
  let origin ← start
  let name ← markupName "attribute name or '>'"
  let value ← optional (accept (.operator "=")) (p .unary)
  pushFrom origin (.tagAttribute name value)

/-- Whether the opening half of a tag goes on with an attribute. -/
def moreAttributes : Parser Bool := do
  let tokens ← ahead
  let closes := kindAt tokens 0 == .operator "/" && kindAt tokens 1 == .operator ">"
  return !closes && kindAt tokens 0 != .operator ">"

/-- The expressions up to the closing half of a tag, with commas between them or not. -/
def tagBody (p : Productions) (name : String) : Parser NodeId := do
  let origin ← start
  let children ← many (return !startsClosingTag (← ahead)) do
    if ← atEnd then unexpected ("'</" ++ name ++ ">'")
    else
      let child ← p .expression
      discard (accept .comma)
      return child
  pushFrom origin (.tagBody children)

/-- A tag. -/
def tag (p : Productions) : Parser NodeId :=
  nested do
    let origin ← start
    expect (.operator "<")
    let name ← markupName "tag name"
    let attributes ← many moreAttributes (tagAttribute p)
    if ← accept (.operator ">") then
      let body ← tagBody p name
      advanceTwo
      let closeStart ← start
      let closing ← markupName "closing tag name"
      if closing == name then
        expect (.operator ">")
        pushFrom origin (.tag name attributes (some body))
      else fail (.mismatchedClosingTag name closing) ((← get).spanFrom closeStart)
    else
      advanceTwo
      pushFrom origin (.tag name attributes none)

/-! ### Json containers -/

/-- The literal that a kind of token spells as a key. -/
def keyLiteral? : TokenKind → Option (Literal × String)
  | .string text => some (.string text, text)
  | .integer text => some (.integer text, text)
  | .long text => some (.long text, text)
  | .floating text => some (.double text, text)
  | _ => none

/-- A key of a json object, with its text. -/
def jsonKey : Parser (NodeId × String) := do
  let origin ← start
  match keyLiteral? (← peek 0) with
  | some (literal, text) =>
    advance
    let key ← pushFrom origin (.literal literal)
    return (key, text)
  | none =>
    let name ← markupName "json key"
    let key ← pushFrom origin (.simpleName name)
    return (key, name)

/-- The entries of a json object, given the keys before them.  No two keys have the same text. -/
def jsonEntriesWithin (p : Productions) : Nat → List String → Parser (List NodeId)
  | 0, _ => exhausted
  | rounds + 1, keys => do
    if ← check .rightBrace then return []
    else
      let origin ← start
      let (key, text) ← jsonKey
      if keys.contains text then fail (.duplicateJsonKey text) (← spanOf key)
      else
        expect .colon
        let value ← p .expression
        let entry ← pushFrom origin (.jsonEntry (some key) value)
        if ← accept .comma then
          let others ← jsonEntriesWithin p rounds (keys ++ [text])
          return entry :: others
        else return [entry]

/-- A json object. -/
def jsonObject (p : Productions) : Parser NodeId :=
  nested do
    let origin ← start
    expect .leftBrace
    let entries ← jsonEntriesWithin p ((← ahead).length + 1) []
    expect .rightBrace
    pushFrom origin (.json false entries)

/-- A json array. -/
def jsonArray (p : Productions) : Parser NodeId :=
  nested do
    let origin ← start
    expect .leftBracket
    let entries ← listUntil .rightBracket .comma do
      let entryStart ← start
      let value ← p .expression
      pushFrom entryStart (.jsonEntry none value)
    expect .rightBracket
    pushFrom origin (.json true entries)

/-- A json container by itself. -/
def jsonDocument (p : Productions) : Parser NodeId := do
  match ← peek 0 with
  | .leftBrace => jsonObject p
  | .leftBracket => jsonArray p
  | _ => unexpected "'\x7b' or '['"

/-! ### Templates -/

/-- The expression in a range of the source, which is all that the range holds. -/
def interpolation (p : Productions) (range : Span) : Parser NodeId := do
  match (← read).tokensIn? range with
  | some (.ok tokens) => onTokens tokens do
    let expression ← p .expression
    expectEnd
    return expression
  | some (.error error) => throw error
  | none => fail .reversedSlice range

/-- A template, which is the next token. -/
def template (p : Productions) (raw : String) : Parser NodeId := do
  let span := (← get).current.span
  advance
  let parts ← (interpolations raw.toList).mapM fun
    | some range => interpolation p (range.shift (span.start + 1))
    | none => fail .unterminatedInterpolation span
  push (.template raw parts) span none

end CodeMarkup.Grammar
