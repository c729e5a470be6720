import CodeMarkup.Scan.Piece
import CodeMarkup.Text.Quoted

namespace CodeMarkup

/-!
# Token streams

* `tokensFrom`: all tokens of a text, with their spans; the first fault ends it.
* `Source.tokens`: the same for a range of a source, whose offsets count from the start of the
  source.
* `Lexer`: a scan in progress, which can be driven token by token and goes on after a fault.
-/

/-- The tokens of a text that starts at `offset`, the end mark included. -/
def tokensFrom (offset : Nat) (text : List Char) : Except ParseError (List Token) :=
  let piece := Piece.scan text
  let start := offset + byteLength piece.trivia
  let span : Span := ⟨start, start + byteLength piece.text⟩
  match piece.outcome with
  | .error fault => .error ⟨fault, span⟩
  | .ok kind =>
    if _h : piece.text = [] then .ok [⟨kind, span⟩]
    else (tokensFrom span.stop piece.rest).map (⟨kind, span⟩ :: ·)
termination_by text.length
decreasing_by exact Piece.length_scan_rest_lt _h

namespace Source

/-- The tokens of a range of the source, or nothing if the range cannot be cut out. -/
def tokensIn? (source : Source) (range : Span) : Option (Except ParseError (List Token)) :=
  (source.slice? range).map (tokensFrom range.start)

/-- The tokens of the source. -/
def tokens (source : Source) : Except ParseError (List Token) :=
  tokensFrom 0 source.chars

end Source

/-- A scan in progress. -/
structure Lexer where
  /-- Offset in the source of the text that is scanned. -/
  base : Nat
  /-- Bytes of that text. -/
  size : Nat
  /-- Bytes taken so far. -/
  consumed : Nat
  /-- The reported position.  It follows `consumed`, except that a failed iteration moves it past
      the end, where it stays until a character is taken. -/
  position : Nat
  /-- The characters left. -/
  rest : List Char

namespace Lexer

/-- The scan of a text that starts at an offset of the source. -/
def ofText (base : Nat) (text : List Char) : Lexer :=
  ⟨base, byteLength text, 0, 0, text⟩

/-- Whether the text of a piece is read back from its span. -/
def readsSpan : Except Fault TokenKind → Bool
  | .ok (.identifier _) | .ok (.keyword _) => true
  | .ok (.integer _) | .ok (.long _) | .ok (.floating _) => true
  | .ok (.operator symbol) => symbol != ">"
  | .error (.invalidNumber _) | .error (.unexpectedCharacter _) => true
  | _ => false

/-- Takes the next token.  The end mark is returned as often as it is asked for, and a fault leaves
    the scan after the characters at fault. -/
def nextToken (lexer : Lexer) : Except ParseError Token × Lexer :=
  let piece := Piece.scan lexer.rest
  let afterTrivia := lexer.consumed + byteLength piece.trivia
  let consumed := afterTrivia + byteLength piece.text
  let start := if piece.trivia.isEmpty then lexer.position else afterTrivia
  let stop := if piece.text.isEmpty then start else consumed
  let span : Span := ⟨lexer.base + start, lexer.base + stop⟩
  let next := { lexer with consumed := consumed, position := stop, rest := piece.rest }
  if stop < start && readsSpan piece.outcome then (.error ⟨.reversedSlice, span⟩, next)
  else
    match piece.outcome with
    | .ok kind => (.ok ⟨kind, span⟩, next)
    | .error fault => (.error ⟨fault, span⟩, next)

/-- The next item of the iteration over a scan: a token other than the end mark, or the first fault,
    after which the iteration is over. -/
def next (lexer : Lexer) : Option (Except ParseError Token) × Lexer :=
  if lexer.size < lexer.position then (none, lexer)
  else
    match lexer.nextToken with
    | (.ok token, after) => if token.kind = .eof then (none, after) else (some (.ok token), after)
    | (.error error, after) => (some (.error error), { after with position := after.size + 1 })

/-- Everything the iteration still yields. -/
def drain (lexer : Lexer) : List (Except ParseError Token) × Lexer :=
  match lexer.next with
  | (none, after) => ([], after)
  | (some item, after) =>
    if after.rest.length < lexer.rest.length then
      let (items, last) := drain after
      (item :: items, last)
    else ([item], after)
termination_by lexer.rest.length

/-- The state of a scan in words. -/
def describe (lexer : Lexer) : String :=
  let remaining := if lexer.size < lexer.position then [] else lexer.rest
  "Lexer \x7b position: " ++ toString (lexer.base + lexer.position) ++ ", remaining: "
    ++ quoted (String.ofList remaining) ++ " \x7d"

end Lexer

end CodeMarkup
