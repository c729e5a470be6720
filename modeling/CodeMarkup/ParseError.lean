import CodeMarkup.Source
import CodeMarkup.Token

namespace CodeMarkup

/-!
# Errors of reading

Reading does not recover: the first fault ends it, with its kind and the span it covers.
-/

/-- The greatest number of open nesting levels of a program. -/
def maxNesting : Nat :=
  64

/-- What is wrong with a text. -/
inductive Fault where
  /-- A character that starts no token. -/
  | unexpectedCharacter (c : Char)
  | unterminatedString
  | unterminatedChar
  | unterminatedTemplate
  | unterminatedComment
  /-- A numeral with a bare exponent, or one that runs into a word. -/
  | invalidNumber (text : String)
  /-- A token where the grammar wants something else. -/
  | unexpected (expected : String) (found : TokenKind)
  /-- A token after a complete construct. -/
  | trailingInput (found : TokenKind)
  | mismatchedClosingTag (expected found : String)
  | duplicateJsonKey (key : String)
  | unterminatedInterpolation
  /-- More than `maxNesting` levels. -/
  | nestingTooDeep
  /-- A text range that starts after it stops was read.  Only a scan that is driven on after it
      failed can ask for one. -/
  | reversedSlice
  /-- A bound that no text reaches was reached: that on the number of steps of a recursion, or that
      on the numbers of nodes. -/
  | exhausted
  deriving DecidableEq, Inhabited

namespace Fault

/-- The fault in words. -/
def message : Fault → String
  | .unexpectedCharacter c => "unexpected character '" ++ c.toString ++ "'"
  | .unterminatedString => "unterminated string literal"
  | .unterminatedChar => "unterminated character literal"
  | .unterminatedTemplate => "unterminated template literal"
  | .unterminatedComment => "unterminated block comment"
  | .invalidNumber text => "invalid number literal '" ++ text ++ "'"
  | .unexpected expected found => "expected " ++ expected ++ ", found " ++ found.describe
  | .trailingInput found => "unexpected " ++ found.describe ++ " after the end of the input"
  | .mismatchedClosingTag expected found =>
    "closing tag </" ++ found ++ "> does not match <" ++ expected ++ ">"
  | .duplicateJsonKey key => "duplicate key '" ++ key ++ "' in json object"
  | .unterminatedInterpolation => "unterminated interpolation in template literal"
  | .nestingTooDeep => s!"nesting is too deep (maximum {maxNesting} levels)"
  | .reversedSlice => "text range starts after it stops"
  | .exhausted => "recursion bound reached"

end Fault

/-- A fault and the bytes at fault. -/
structure ParseError where
  /-- What is wrong. -/
  fault : Fault
  /-- Where. -/
  span : Span
  deriving DecidableEq, Inhabited

namespace ParseError

/-- The position at which the error starts. -/
def position (error : ParseError) (source : Source) : Position :=
  source.position error.span.start

/-- The fault in words, with its position. -/
def message (error : ParseError) (source : Source) : String :=
  error.fault.message ++ " at " ++ (error.position source).text

end ParseError

end CodeMarkup
