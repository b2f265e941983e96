import LineBasic.Number.Decimal

/-!
# The text of a number

A finite number is written as a decimal fraction without an exponent, with as few digits as
still stand for it.  The decimal fractions with their last digit at a given place form a
grid.  Grids are tried from the place of the leading digit on, each finer than the one
before, until one of the two points beside the number stands for it; of two such points
the nearer one is taken, and the upper one if they are equally near.
-/

namespace LineBasic

namespace Decimal

/-- The grid point beside a magnitude that stands for it, if there is one, on the grid with
its last digit `zeros` before or `places` after the point. -/
def onGrid? (zeros places b : Nat) : Option Decimal :=
  let n := Number.quanta b * Nat.pow 10 places
  let d := Number.unit * Nat.pow 10 zeros
  let lower : Decimal := ⟨n / d * Nat.pow 10 zeros, places⟩
  let upper : Decimal := ⟨(n / d + 1) * Nat.pow 10 zeros, places⟩
  (if 2 * (n % d) < d then [lower, upper] else [upper, lower]).find? (·.nearest = b)

/-- The finite magnitude as a decimal fraction without any rounding. -/
def exact (b : Nat) : Decimal :=
  ⟨Number.quanta b * Nat.pow 5 1074, 1074⟩

/-- The first point found on the grids with `1074 - n` places after the point or more. -/
def fromPlaces (b : Nat) : Nat → Decimal
  | 0 => exact b
  | n + 1 => (onGrid? 0 (1074 - n) b).getD (fromPlaces b n)

/-- The first point found on the grids with `n` zeros before the point or fewer. -/
def fromZeros (b : Nat) : Nat → Decimal
  | 0 => (onGrid? 0 0 b).getD (fromPlaces b 1074)
  | n + 1 => (onGrid? (n + 1) 0 b).getD (fromZeros b n)

/-- The shortest decimal fraction that stands for a finite magnitude. -/
def shortest (b : Nat) : Decimal :=
  fromZeros b ((Nat.toDigits 10 (Number.quanta b / Number.unit)).length - 1)

end Decimal

namespace Number

/-- The text of a double. -/
def chars (x : Float) : List Char :=
  if x.isNaN then
    "NaN".toList
  else
    let unsigned :=
      if isFinite x then (Decimal.shortest (magnitude x)).text else "inf".toList
    if isNegative x then '-' :: unsigned else unsigned

/-- The text of a double, as it is printed. -/
def text (x : Float) : String :=
  String.ofList (chars x)

end Number

end LineBasic
