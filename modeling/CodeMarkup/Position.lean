namespace CodeMarkup

/-!
# Positions and extents

A `Position` is a line and a column, both counted from one; columns count characters.  An `Extent`
is what a construct covers, from its first character to its last, both included.
-/

/-- A line and a column, counted from one. -/
structure Position where
  /-- The line. -/
  line : Nat
  /-- The column, in characters. -/
  column : Nat
  deriving DecidableEq, Inhabited

namespace Position

/-- Reading order: by line, then by column. -/
instance : LT Position :=
  ⟨fun p q => p.line < q.line ∨ (p.line = q.line ∧ p.column < q.column)⟩

instance : LE Position :=
  ⟨fun p q => p.line < q.line ∨ (p.line = q.line ∧ p.column ≤ q.column)⟩

instance (p q : Position) : Decidable (p < q) :=
  inferInstanceAs (Decidable (p.line < q.line ∨ (p.line = q.line ∧ p.column < q.column)))

instance (p q : Position) : Decidable (p ≤ q) :=
  inferInstanceAs (Decidable (p.line < q.line ∨ (p.line = q.line ∧ p.column ≤ q.column)))

/-- The position of the first character of a text. -/
def origin : Position :=
  ⟨1, 1⟩

/-- The position after a character.  A line feed, and nothing else, ends a line. -/
def next (p : Position) (c : Char) : Position :=
  if c = '\n' then ⟨p.line + 1, 1⟩ else ⟨p.line, p.column + 1⟩

/-- The position as `line:column`. -/
def text (p : Position) : String :=
  s!"{p.line}:{p.column}"

end Position

/-- The first and the last position of a construct. -/
structure Extent where
  /-- Position of the first character. -/
  first : Position
  /-- Position of the last character. -/
  last : Position
  deriving DecidableEq, Inhabited

namespace Extent

/-- Whether `inner` starts no earlier and ends no later than `outer`. -/
def contains (outer inner : Extent) : Bool :=
  outer.first ≤ inner.first && inner.last ≤ outer.last

end Extent

end CodeMarkup
