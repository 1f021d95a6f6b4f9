/-!
Sets of characters given by an ascending list of inclusive ranges of code points, the form in which
the tables of character properties are written.
-/

namespace ScriptFront.Text

/-- Whether a code point lies in one of the ranges; the search stops at the first range above it. -/
def inRanges (code : Nat) : List (Nat × Nat) → Bool
  | [] => false
  | (low, high) :: ranges => low ≤ code && (code ≤ high || inRanges code ranges)

/-- Whether the ranges are proper and follow one another, with a gap between neighbours. -/
def ascending : List (Nat × Nat) → Bool
  | [] => true
  | [(low, high)] => low ≤ high
  | (low, high) :: (nextLow, nextHigh) :: ranges =>
    low ≤ high && high + 1 < nextLow && ascending ((nextLow, nextHigh) :: ranges)

end ScriptFront.Text
