/-! The exact value of a float: a whole number times a power of two. -/

namespace TaskNetwork.Decimal

/-- What a float stands for. A finite one is `mantissa * 2 ^ exponent`, up to its sign. -/
inductive Exact where
  | notANumber
  | infinite (negative : Bool)
  | finite (negative : Bool) (mantissa : Nat) (exponent : Int)
deriving DecidableEq

def leastExponent : Int := -1074

/-- The weight of the leading one of a mantissa, which a float does not store. -/
def leadingOne : Nat := Nat.pow 2 52

/-- The bits of a float are a sign, eleven bits of exponent and 52 of fraction. A nonzero exponent
stands for a leading one before the fraction. -/
def Exact.ofFloat (x : Float) : Exact :=
  let bits : Nat := x.toBits.toNat
  let negative : Bool := bits / Nat.pow 2 63 == 1
  let biased : Nat := bits / leadingOne % 2048
  let fraction : Nat := bits % leadingOne
  if biased = 2047 then
    if fraction = 0 then .infinite negative else .notANumber
  else if biased = 0 then .finite negative fraction leastExponent
  else .finite negative (leadingOne + fraction) (leastExponent - 1 + biased)

end TaskNetwork.Decimal
