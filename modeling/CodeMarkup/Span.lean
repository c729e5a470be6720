namespace CodeMarkup

/-!
# Spans

Half-open ranges of byte offsets into the UTF-8 form of a source text.  A span is plain data: a scan
that starts after it stopped yields a reversed span, and nothing here forbids that.
-/

/-- The bytes from `start` up to, and not including, `stop`. -/
structure Span where
  /-- Offset of the first byte. -/
  start : Nat
  /-- Offset just past the last byte. -/
  stop : Nat
  deriving DecidableEq, Inhabited

namespace Span

/-- The empty span at an offset. -/
def point (offset : Nat) : Span :=
  ⟨offset, offset⟩

/-- Number of bytes. -/
def size (s : Span) : Nat :=
  s.stop - s.start

/-- Whether the span starts where it stops. -/
def isEmpty (s : Span) : Bool :=
  s.start == s.stop

/-- Whether `inner` lies within `outer`, common ends included. -/
def contains (outer inner : Span) : Bool :=
  outer.start ≤ inner.start && inner.stop ≤ outer.stop

/-- The least span that contains both. -/
def merge (a b : Span) : Span :=
  ⟨min a.start b.start, max a.stop b.stop⟩

/-- The span moved towards the end of the text. -/
def shift (s : Span) (offset : Nat) : Span :=
  ⟨s.start + offset, s.stop + offset⟩

/-- The order of spans: by start, then by end. -/
def before (a b : Span) : Bool :=
  a.start < b.start || (a.start == b.start && a.stop < b.stop)

end Span

end CodeMarkup
