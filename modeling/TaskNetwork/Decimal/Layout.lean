import TaskNetwork.Decimal.Shortest

/-! Written decimals. A layout says what a format decides about the text of a number; the digits
are those of the shortest decimal. -/

namespace TaskNetwork.Decimal

/-- A format's decisions about the text of a finite number. -/
structure Layout where
  tie : Tie
  /-- A whole number keeps a point and one zero. -/
  pointed : Bool
  /-- The number of digits before the point lies above the first and not above the second bound
  where the text has no exponent. Without bounds no text has one. -/
  positional : Option (Int × Int)
  /-- Zero keeps its sign. -/
  signedZero : Bool

/-- Digits with a point after the first `point` of them, filled up with zeros on either side. -/
def pointAt (pointed : Bool) (digits : List Char) (point : Int) : List Char :=
  if point ≤ 0 then '0' :: '.' :: (List.replicate (-point).toNat '0' ++ digits)
  else
    let before := point.toNat
    if digits.length ≤ before then
      digits ++ List.replicate (before - digits.length) '0' ++ (if pointed then ['.', '0'] else [])
    else digits.take before ++ '.' :: digits.drop before

/-- One digit before the point and a signed exponent. -/
def withExponent (digits : List Char) (point : Int) : List Char :=
  let mantissa := if digits.length ≤ 1 then digits else digits.take 1 ++ '.' :: digits.drop 1
  let power := point - 1
  mantissa ++ 'e' :: (if power < 0 then '-' else '+') :: (toString power.natAbs).toList

def Layout.digits (layout : Layout) (m : Nat) (q : Int) : List Char :=
  let (c, k) := shortest layout.tie m q
  let digits := (toString c).toList
  let point := digits.length + k
  match layout.positional with
  | none => pointAt layout.pointed digits point
  | some (low, high) =>
    if low < point ∧ point ≤ high then pointAt layout.pointed digits point
    else withExponent digits point

def Layout.write (layout : Layout) (x : Float) : String :=
  match Exact.ofFloat x with
  | .notANumber => "NaN"
  | .infinite negative => if negative then "-inf" else "inf"
  | .finite negative m q =>
    let sign := if negative && (layout.signedZero || m ≠ 0) then ['-'] else []
    String.ofList (sign ++ layout.digits m q)

/-- Never an exponent, no point in a whole number, the upper of two equally near decimals. -/
def plain : Layout := ⟨.up, false, none, true⟩

end TaskNetwork.Decimal
