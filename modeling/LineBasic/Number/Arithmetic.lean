import LineBasic.Number.Magnitude

/-!
# Truncation, remainder and powers

The operations on doubles that are not among the basic ones.  `truncate` and `remainder`
are exact, since both are operations on whole numbers of quanta.  `power` multiplies
repeatedly, and stops early where the products from there on repeat.
-/

namespace LineBasic.Number

/-- A double without its fraction; an infinite one counts as the first power of two that is
out of range. -/
def truncate (x : Float) : Int :=
  let n := quanta (magnitude x) / unit
  if isNegative x then -n else n

/-- The remainder of the division of `x` by `y` that has the sign of `x`, also when it is
zero. -/
def remainder (x y : Float) : Float :=
  if x.isNaN || y.isNaN || !isFinite x || magnitude y = 0 then
    ofMagnitude false notANumber
  else if !isFinite y then
    x
  else
    ofMagnitude (isNegative x) (nearest (quanta (magnitude x) % quanta (magnitude y)) unit)

/-! ### Powers -/

/-- The whole exponent that a double stands for: its truncation, brought into the range of
32-bit integers. -/
def wholeExponent (x : Float) : Int :=
  if x.isNaN then 0 else max (-Int.pow 2 31) (min (Int.pow 2 31 - 1) (truncate x))

/-- The product of `product` and `n` factors `base`, multiplied one after the other.  A product
that a further factor leaves as it is, or that is not a number, is the last one.  From where a
further factor changes nothing but the sign, the products alternate, so that the last one is the
next one or the one before it.  Bits are looked at only where doubles compare as equal. -/
def multiplied (base : Float) : Nat → Float → Float
  | 0, product => product
  | n + 1, product =>
    let next := product * base
    if next != next || (next == product && next.toBits = product.toBits) then
      next
    else if next == -product then
      if n % 2 = 0 then next else product
    else
      multiplied base n next

/-- The power of a base: one for the exponent zero, otherwise as many factors as the whole
exponent says, and never less than one factor. -/
def power (base exponent : Float) : Float :=
  if exponent == 0.0 then
    1.0
  else
    multiplied base (wholeExponent exponent - 1).toNat base

end LineBasic.Number
