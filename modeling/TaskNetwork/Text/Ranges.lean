/-! Sets of code points written as ascending, disjoint ranges. -/

namespace TaskNetwork.Text

/-- Whether `c` lies in one of `ranges`, which ascend: only the first range that does not end
before `c` can hold it. -/
def inRanges (ranges : List (Nat × Nat)) (c : Char) : Bool :=
  match ranges.find? (c.toNat ≤ ·.2) with
  | some (first, _) => decide (first ≤ c.toNat)
  | none => false

end TaskNetwork.Text
