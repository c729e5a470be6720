import CodeMarkup.Text.Letter
import CodeMarkup.Text.Numeral
import CodeMarkup.Token

namespace CodeMarkup

/-!
# Words

Names start with a letter, `_` or `$` and go on with letters, numerals, `_` and `$`, in any script.
A name spelled like a keyword is that keyword.
-/

/-- Whether a character may start a name. -/
def isWordStart (c : Char) : Bool :=
  isLetter c || c == '_' || c == '$'

/-- Whether a character may continue a name. -/
def isWordPart (c : Char) : Bool :=
  isLetter c || isNumeral c || c == '_' || c == '$'

theorem isWordPart_of_isWordStart {c : Char} (h : isWordStart c = true) : isWordPart c = true := by
  simp only [isWordStart, isWordPart, Bool.or_eq_true] at *
  grind

/-- The token spelled by a name. -/
def TokenKind.ofWord (text : String) : TokenKind :=
  match Keyword.ofText? text with
  | some word => .keyword word
  | none => .identifier text

end CodeMarkup
