import CodeMarkup.Scan.Lexeme
import CodeMarkup.Scan.Trivia

namespace CodeMarkup

/-!
# Pieces

A piece of a text is a token together with the blanks and comments before it.  A text is a sequence
of pieces; the last one spells the empty token that marks the end.
-/

/-- A token, or a fault, with what stands before it and after it. -/
structure Piece where
  /-- The blanks and comments before the token. -/
  trivia : List Char
  /-- The characters of the token, or those at fault. -/
  text : List Char
  /-- The characters left. -/
  rest : List Char
  /-- The token, or what is wrong. -/
  outcome : Except Fault TokenKind

namespace Piece

/-- The first piece of a text. -/
def scan (text : List Char) : Piece :=
  let gap := Gap.scan text
  if gap.unclosed.isEmpty then
    let lexeme := Lexeme.scan gap.rest
    ⟨gap.trivia, lexeme.text, lexeme.rest, lexeme.outcome⟩
  else ⟨gap.trivia, gap.unclosed, gap.rest, .error .unterminatedComment⟩

/-- A piece and what follows it make up the text. -/
theorem scan_append (text : List Char) :
    (scan text).trivia ++ (scan text).text ++ (scan text).rest = text := by
  have hgap := Gap.scan_append text
  unfold scan
  dsimp only
  split
  next h =>
    have hnil : (Gap.scan text).unclosed = [] := by simpa using h
    rw [hnil, List.append_nil] at hgap
    rw [List.append_assoc, Lexeme.scan_append, hgap]
  next => exact hgap

/-- A piece that takes a character leaves less than the text. -/
theorem length_scan_rest_lt {text : List Char} (h : (scan text).text ≠ []) :
    (scan text).rest.length < text.length := by
  have happ := congrArg List.length (scan_append text)
  have hpos := List.length_pos_iff.2 h
  simp only [List.length_append] at happ
  omega

theorem length_scan_rest_le (text : List Char) :
    (scan text).rest.length ≤ text.length := by
  have happ := congrArg List.length (scan_append text)
  simp only [List.length_append] at happ
  omega

end Piece

end CodeMarkup
