import TaskNetwork.Decimal.Exact

/-! Decimals with a fixed number of places, rounded from the exact value. -/

namespace TaskNetwork.Decimal

/-- The whole number nearest to `num / den`; halfway, the even one. -/
def roundDiv (num den : Nat) : Nat :=
  let floor := num / den
  let rest := num % den
  if 2 * rest < den then floor
  else if den < 2 * rest then floor + 1
  else if floor % 2 = 0 then floor else floor + 1

def fixed (places : Nat) (x : Float) : String :=
  match Exact.ofFloat x with
  | .notANumber => "NaN"
  | .infinite negative => if negative then "-inf" else "inf"
  | .finite negative m q =>
    let n := roundDiv (m * Nat.pow 2 q.toNat * Nat.pow 10 places) (Nat.pow 2 (-q).toNat)
    let digits := (toString n).toList
    let padded := List.replicate (places + 1 - digits.length) '0' ++ digits
    let whole := padded.length - places
    let point := if places = 0 then [] else ['.']
    String.ofList ((if negative then ['-'] else []) ++
      padded.take whole ++ point ++ padded.drop whole)

end TaskNetwork.Decimal
