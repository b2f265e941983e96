import LineBasic.Number.Magnitude

/-!
# Decimal fractions

A decimal fraction is a whole number of units of its last place.  It is written
positionally, with a point only if it has places after the point, and it stands for the
magnitude nearest to it.
-/

namespace LineBasic

/-- The decimal fraction `digits / 10 ^ places`. -/
structure Decimal where
  digits : Nat
  places : Nat
  deriving DecidableEq, Repr

namespace Decimal

/-- The last `width` digits of a number, with zeros in front if it has fewer. -/
def lastDigits : (width : Nat) → Nat → List Char
  | 0, _ => []
  | width + 1, n => lastDigits width (n / 10) ++ [Nat.digitChar (n % 10)]

/-- The positional notation of a decimal fraction, with all its places. -/
def text (d : Decimal) : List Char :=
  let whole := Nat.toDigits 10 (d.digits / Nat.pow 10 d.places)
  if d.places = 0 then whole else whole ++ '.' :: lastDigits d.places d.digits

/-- The magnitude nearest to a decimal fraction. -/
def nearest (d : Decimal) : Nat :=
  Number.nearest d.digits (Nat.pow 10 d.places)

end Decimal

end LineBasic
