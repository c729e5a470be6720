namespace CodeMarkup

/-!
# Ranges of code points

A class of characters is given as the increasing list of its maximal runs of code points.

* `Ranges.covers`: membership, by a walk that stops at the first run that starts too high.
-/

/-- Runs of code points, both ends included, in increasing order. -/
abbrev Ranges := List (Nat × Nat)

namespace Ranges

/-- Whether `n` lies in one of the runs.  The runs increase, so a run that starts above `n` ends the
    search: an ASCII character is settled within the first few entries of a table. -/
def covers : Ranges → Nat → Bool
  | [], _ => false
  | (low, high) :: rest, n =>
    if n < low then false else if n ≤ high then true else covers rest n

end Ranges

end CodeMarkup
