import CodeMarkup.Keyword
import CodeMarkup.Span

namespace CodeMarkup

/-!
# Tokens

The words and signs of the code grammar.  Blanks and comments are not tokens.  The sign `>` is
always a token by itself: the grammar joins adjacent ones into `>=`, `>>` and so on where an
operator is wanted, so that `Map<K, List<V>>` closes two lists of type arguments.

* `TokenKind.spelling`: the source text of a token.
* `TokenKind.describe`: the token as an error message names it.
-/

/-- What a token is, with its text where the kind does not determine it.  Literals keep the exact
    spelling between their delimiters. -/
inductive TokenKind where
  | identifier (name : String)
  | keyword (word : Keyword)
  | integer (text : String)
  | long (text : String)
  | floating (text : String)
  | char (text : String)
  | string (text : String)
  | template (text : String)
  | leftParen | rightParen | leftBrace | rightBrace | leftBracket | rightBracket
  | semicolon | comma | dot | ellipsis | at | question | colon | doubleColon | arrow
  | operator (symbol : String)
  | eof
  deriving DecidableEq, Inhabited

namespace TokenKind

/-- The text of a token in a source. -/
def spelling : TokenKind → String
  | .identifier text | .integer text | .long text | .floating text | .operator text => text
  | .keyword word => word.text
  | .char text => "'" ++ text ++ "'"
  | .string text => "\"" ++ text ++ "\""
  | .template text => "`" ++ text ++ "`"
  | .leftParen => "("
  | .rightParen => ")"
  | .leftBrace => "\x7b"
  | .rightBrace => "\x7d"
  | .leftBracket => "["
  | .rightBracket => "]"
  | .semicolon => ";"
  | .comma => ","
  | .dot => "."
  | .ellipsis => "..."
  | .at => "@"
  | .question => "?"
  | .colon => ":"
  | .doubleColon => "::"
  | .arrow => "->"
  | .eof => ""

/-- The token as a message names it. -/
def describe (kind : TokenKind) : String :=
  match kind with
  | .char text => "'" ++ text ++ "' character literal"
  | .string _ => kind.spelling
  | .template _ => "template literal"
  | .eof => "end of input"
  | _ => "'" ++ kind.spelling ++ "'"

/-- Whether the token is a value by itself. -/
def isLiteral : TokenKind → Bool
  | .integer _ | .long _ | .floating _ | .char _ | .string _ | .template _ => true
  | .keyword word => word = .kwTrue || word = .kwFalse || word = .kwNull
  | _ => false

/-- Whether the token is a name that is not reserved. -/
def isIdentifier : TokenKind → Bool
  | .identifier _ => true
  | _ => false

/-- The text of a name, reserved or not.  Tags and attributes are named by either. -/
def word? : TokenKind → Option String
  | .identifier name => some name
  | .keyword word => some word.text
  | _ => none

end TokenKind

/-- A token and the bytes it covers. -/
structure Token where
  /-- What the token is. -/
  kind : TokenKind
  /-- Where it stands. -/
  span : Span
  deriving DecidableEq, Inhabited

namespace Token

/-- The token moved towards the end of the text. -/
def shift (token : Token) (offset : Nat) : Token :=
  { token with span := token.span.shift offset }

end Token

end CodeMarkup
