import TaskNetwork.Decimal.Exact

/-! The shortest decimal of a binary number: of all decimals that lie among the reals rounding to
it, one with the fewest digits, and of those the nearest. Which of two equally near decimals is
taken depends on the format, so it is a parameter. -/

namespace TaskNetwork.Decimal

/-- The choice between two neighbours that are equally near. -/
inductive Tie where
  | up
  | even
deriving DecidableEq

/-- The fraction `10 ^ k * 2 ^ -e`, numerator first. -/
def scale (k e : Int) : Nat × Nat :=
  (Nat.pow 10 k.toNat * Nat.pow 2 (-e).toNat, Nat.pow 10 (-k).toNat * Nat.pow 2 e.toNat)

/-- The least and greatest reals that round to `m * 2 ^ q`, in quarters of `2 ^ q`. Below a power
of two the floats lie twice as dense, so the lower half gap is half as wide there. -/
def roundingEnds (m : Nat) (q : Int) : Nat × Nat :=
  (4 * m - (if m = leadingOne ∧ leastExponent < q then 1 else 2), 4 * m + 2)

/-- The multiple of `10 ^ k` that rounds to `m * 2 ^ q`, by its factor: one of the two neighbours
of the value on that grid. The ends of the interval round to an even mantissa only. -/
def onGrid? (tie : Tie) (m : Nat) (q k : Int) : Option Nat :=
  let (grid, unit) := scale k (q - 2)
  let (low, high) := roundingEnds m q
  let inside (c : Nat) : Bool :=
    if m % 2 = 0 then low * unit ≤ c * grid && c * grid ≤ high * unit
    else low * unit < c * grid && c * grid < high * unit
  let value := 4 * m * unit
  let below := value / grid
  let above := below + 1
  match inside below, inside above with
  | true, true =>
    let down := value - below * grid
    let up := above * grid - value
    if down < up then some below
    else if up < down then some above
    else match tie with
      | .up => some above
      | .even => some (if below % 2 = 0 then below else above)
  | true, false => some below
  | false, true => some above
  | false, false => none

def width (n : Nat) : Nat := (Nat.toDigits 10 n).length

/-- The shortest decimal `c * 10 ^ k` of `m * 2 ^ q`, as the pair of `c` and `k`. The grids are
tried from the coarsest that can hold a hit. Seventeen digits always suffice. -/
def shortest (tie : Tie) (m : Nat) (q : Int) : Nat × Int :=
  if m = 0 then (0, 0)
  else
    let top : Int := width (m * Nat.pow 2 q.toNat) - width (Nat.pow 2 (-q).toNat) + 1
    let grids : List Int := (List.range 20).map fun (i : Nat) => top - i
    (grids.findSome? fun k => (onGrid? tie m q k).map fun c => (c, k)).getD (0, 0)

end TaskNetwork.Decimal
