import CodeMarkup.Position
import CodeMarkup.Span
import CodeMarkup.Text.Bytes

namespace CodeMarkup

/-!
# Source texts

A source text and the passage from byte offsets to positions.

* `Source.position`: the position of the character at an offset.  It counts the characters that
  start before the offset, so an offset inside a character gives the position after that character
  and an offset past the end the position after the last one.
* `Source.extent`: first and last position of a span.
* `Source.slice?`: the text of a span.
-/

/-- A source text. -/
structure Source where
  /-- The characters of the text. -/
  chars : List Char
  deriving DecidableEq, Inhabited

/-- The position reached from `p` over the characters that start in the first `offset` bytes. -/
def Position.advance (p : Position) : List Char → Nat → Position
  | [], _ => p
  | _ :: _, 0 => p
  | c :: text, offset + 1 => (p.next c).advance text (offset + 1 - c.utf8Size)

/-- Bytes of the character that ends exactly at `offset`, or one if no character does. -/
def widthBefore : List Char → Nat → Nat
  | [], _ => 1
  | c :: text, offset =>
    if offset < c.utf8Size then 1
    else if offset = c.utf8Size then c.utf8Size
    else widthBefore text (offset - c.utf8Size)

namespace Source

/-- The source with a given text. -/
def ofText (text : String) : Source :=
  ⟨text.toList⟩

/-- Number of bytes. -/
def size (source : Source) : Nat :=
  byteLength source.chars

/-- Number of lines, counting an empty one after a final line feed. -/
def lineCount (source : Source) : Nat :=
  source.chars.count '\n' + 1

/-- The position of the character at a byte offset. -/
def position (source : Source) (offset : Nat) : Position :=
  Position.origin.advance source.chars offset

/-- The positions of the first and the last character of a span.  An empty span has one position,
    and a span never ends before it starts. -/
def extent (source : Source) (span : Span) : Extent :=
  let first := source.position span.start
  if span.isEmpty then ⟨first, first⟩
  else
    let lastStart := span.stop - widthBefore source.chars span.stop
    ⟨first, source.position (max lastStart span.start)⟩

/-- The characters of a span, if it is in order and both its ends are character boundaries. -/
def slice? (source : Source) (span : Span) : Option (List Char) :=
  if span.start ≤ span.stop then do
    takeBytes (← dropBytes source.chars span.start) span.size
  else none

/-- The text of a span; empty if the span cannot be cut out. -/
def textOf (source : Source) (span : Span) : String :=
  String.ofList ((source.slice? span).getD [])

end Source

end CodeMarkup
