/-!
Sets of characters as ascending closed ranges of their numbers.
-/

namespace PullFlow.Text

/-- Whether a number lies in one of the ranges, which ascend. -/
def inRanges (n : Nat) : List (Nat × Nat) → Bool
  | [] => false
  | (low, high) :: rest => if n < low then false else n ≤ high || inRanges n rest

/-- Ranges that ascend and do not touch. -/
def ascending : List (Nat × Nat) → Bool
  | [] => true
  | [(low, high)] => low ≤ high
  | (low, high) :: next :: rest => low ≤ high && high + 1 < next.1 && ascending (next :: rest)

end PullFlow.Text
