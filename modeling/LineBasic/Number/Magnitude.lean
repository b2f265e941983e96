/-!
# Magnitudes of doubles

The numbers of the language are doubles.  Apart from its sign, a double is given by its
magnitude, the lower 63 bits of its word; magnitudes ascend with the values they stand
for, and the first magnitude that is not finite is `infinity`.  Every finite magnitude
stands for a whole number of quanta, the quantum being `1 / unit` with `unit = 2 ^ 1074`.
`quanta` is that whole number, and `nearest n d` is the magnitude nearest to `n / d`, a tie
going to the even one.
-/

namespace LineBasic.Number

/-- The number of quanta in one. -/
def unit : Nat :=
  Nat.pow 2 1074

/-- The magnitude of infinity, above all finite ones. -/
def infinity : Nat :=
  2047 * Nat.pow 2 52

/-- The magnitude of the value that is not a number. -/
def notANumber : Nat :=
  4095 * Nat.pow 2 51

/-- The sign of a double is set, as it also is for the negative zero. -/
def isNegative (x : Float) : Bool :=
  Nat.pow 2 63 ≤ x.toBits.toNat

/-- The magnitude of a double. -/
def magnitude (x : Float) : Nat :=
  x.toBits.toNat % Nat.pow 2 63

/-- The double is neither infinite nor not a number. -/
def isFinite (x : Float) : Bool :=
  magnitude x < infinity

/-- The double of a sign and a magnitude. -/
def ofMagnitude (negative : Bool) (b : Nat) : Float :=
  Float.ofBits (UInt64.ofNat (if negative then Nat.pow 2 63 + b else b))

/-- The number of quanta that a magnitude stands for: the first `2 ^ 53` magnitudes are one
quantum apart, and after every further `2 ^ 52` the distance doubles. -/
def quanta (b : Nat) : Nat :=
  if b < Nat.pow 2 52 then
    b
  else
    (Nat.pow 2 52 + b % Nat.pow 2 52) * Nat.pow 2 (b / Nat.pow 2 52 - 1)

/-- The whole number nearest to `n / d`, a tie going to the even one. -/
def roundEven (n d : Nat) : Nat :=
  let q := n / d
  let r := 2 * (n % d)
  if r < d ∨ (r = d ∧ q % 2 = 0) then q else q + 1

/-- The magnitude nearest to `n / d`, a tie going to the even one. -/
def nearest (n d : Nat) : Nat :=
  let doublings := (n * unit / d).log2 - 52
  min infinity (doublings * Nat.pow 2 52 + roundEven (n * unit) (d * Nat.pow 2 doublings))

end LineBasic.Number
