/-!
# Ranges of code points

A character property that a standard publishes as data is kept as a list of closed ranges of code
points.  Membership is a walk along the list: the lists are short enough that nothing better is
needed, and a walk is easy to reason about.
-/

namespace Deontica.Text

/-- Whether `c` lies in one of the closed ranges of `ranges`. -/
def inRanges (ranges : List (Nat × Nat)) (c : Char) : Bool :=
  ranges.any fun r => decide (r.1 ≤ c.toNat) && decide (c.toNat ≤ r.2)

/-- A character is in the ranges exactly when one of them brackets its code point. -/
theorem inRanges_iff {ranges : List (Nat × Nat)} {c : Char} :
    inRanges ranges c = true ↔ ∃ r ∈ ranges, r.1 ≤ c.toNat ∧ c.toNat ≤ r.2 := by
  simp [inRanges]

end Deontica.Text
