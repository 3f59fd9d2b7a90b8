/-! Reading decimals: the float nearest to a written number. -/

namespace TaskNetwork.Decimal

def ofDigits (digits : List Char) : Nat :=
  digits.foldl (fun n c => 10 * n + (c.toNat - '0'.toNat)) 0

def infinity : Float := 1.0 / 0.0

def notANumber : Float := 0.0 / 0.0

/-- The float nearest to `10 ^ k` times the value of `digits`. Past the greatest and below the least
magnitude the answer does not depend on the digits, so no large power is taken there. -/
def nearest (digits : List Char) (k : Int) : Float :=
  let significant := digits.dropWhile (· = '0')
  let point := significant.length + k
  if significant.isEmpty then 0.0
  else if 400 < point then infinity
  else if point < -400 then 0.0
  else Float.ofScientific (ofDigits significant) (k < 0) k.natAbs

/-- The float of an optional minus, the digits before the point and those after it, times a power
of ten. -/
def ofParts (negative : Bool) (whole fraction : List Char) (power : Int) : Float :=
  let x := nearest (whole ++ fraction) (power - fraction.length)
  if negative then -x else x

/-- The power of ten written after a number: nothing, or `e`, a sign and digits. -/
def power? : List Char → Option Int
  | [] => some 0
  | e :: rest =>
    if e = 'e' ∨ e = 'E' then
      let (negative, digits) := match rest with
        | '-' :: r => (true, r)
        | '+' :: r => (false, r)
        | r => (false, r)
      if digits.isEmpty || !digits.all Char.isDigit then none
      else some (if negative then -(ofDigits digits : Int) else ofDigits digits)
    else none

/-- An unsigned number: digits with at most one point and at least one digit, then a power. -/
def unsigned? (negative : Bool) (cs : List Char) : Option Float :=
  let whole := cs.takeWhile Char.isDigit
  let (fraction, rest) := match cs.dropWhile Char.isDigit with
    | '.' :: r => (r.takeWhile Char.isDigit, r.dropWhile Char.isDigit)
    | r => ([], r)
  if whole.isEmpty && fraction.isEmpty then none
  else (power? rest).map (ofParts negative whole fraction)

/-- A written number, an infinity or a mark that is not a number, each with an optional sign. -/
def read? (text : String) : Option Float :=
  let (negative, body) := match text.toList with
    | '-' :: r => (true, r)
    | '+' :: r => (false, r)
    | r => (false, r)
  let word := String.ofList (body.map Char.toLower)
  if word = "inf" ∨ word = "infinity" then some (if negative then -infinity else infinity)
  else if word = "nan" then some notANumber
  else unsigned? negative body

end TaskNetwork.Decimal
