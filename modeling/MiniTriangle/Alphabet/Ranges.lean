/-! Sets of characters given by ranges of code points. A table lists its ranges in ascending order,
so that a search stops at the first range beyond the character. -/

namespace MiniTriangle.Alphabet

/-- Ranges of code points, both ends included, in ascending order. -/
abbrev Ranges := List (Nat × Nat)

/-- Whether a code point lies in one of the ranges. -/
def Ranges.has : Ranges → Nat → Bool
  | [], _ => false
  | (low, high) :: rest, code =>
    if code < low then false else if code ≤ high then true else Ranges.has rest code

end MiniTriangle.Alphabet
