import CodeMarkup.Text.Blank

namespace CodeMarkup

/-!
# Dedent

The text of a template is usually indented to match the code around it.  `dedent` gives the lines
that were meant, without the shared indentation and without the line breaks that only set the text
off from its delimiters.
-/

/-- Line breaks of any form as line feeds. -/
def unifyBreaks : List Char → List Char
  | [] => []
  | '\r' :: '\n' :: text => '\n' :: unifyBreaks text
  | c :: text => (if c = '\r' then '\n' else c) :: unifyBreaks text

/-- The lines of a text; there is always at least one. -/
def splitLines : List Char → List (List Char)
  | [] => [[]]
  | c :: text =>
    if c = '\n' then [] :: splitLines text
    else
      match splitLines text with
      | line :: lines => (c :: line) :: lines
      | [] => [[c]]

/-- Number of blanks at the head of a line. -/
def indentation (line : List Char) : Nat :=
  (line.takeWhile isBlank).length

/-- Whether a line has nothing but blanks. -/
def isBlankLine (line : List Char) : Bool :=
  line.all isBlank

/-- The least of some counts, or zero if there are none. -/
def leastOf (counts : List Nat) : Nat :=
  counts.min?.getD 0

/-- The lines without the indentation, and without the trailing blanks, that all lines share.  Blank
    lines have no say in that and come out empty. -/
def dedentLines (lines : List (List Char)) : List (List Char) :=
  let solid := lines.filter (!isBlankLine ·)
  let leading := leastOf (solid.map indentation)
  let trailing := leastOf (solid.map fun line => indentation line.reverse)
  lines.map fun line =>
    if isBlankLine line then []
    else (line.drop leading).take (line.length - leading - trailing)

/-- A text without a line feed at its head. -/
def dropLeadingBreak : List Char → List Char
  | '\n' :: text => text
  | text => text

/-- A text without a line feed at its end. -/
def dropTrailingBreak (text : List Char) : List Char :=
  if text.getLast? = some '\n' then text.dropLast else text

/-- The lines of a template's text: a line break next to either delimiter is dropped, text that is
    all blank has no lines, and the rest is dedented. -/
def dedent (raw : List Char) : List (List Char) :=
  let text := dropLeadingBreak (unifyBreaks raw)
  if text.all isBlank then [] else dedentLines (splitLines (dropTrailingBreak text))

end CodeMarkup
