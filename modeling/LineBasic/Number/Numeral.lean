import LineBasic.Number.Decimal

/-!
# Reading numbers

A numeral is a run of digits with at most one point among, before or after them, followed
by an optional exponent of ten.  It stands for the magnitude nearest to its value.  With an
optional sign in front, numerals and the names of infinity and of the value that is not a
number are the texts of doubles; no blank and no other mark may occur in them.
-/

namespace LineBasic

/-- A numeral: the digits before and after its point, and its exponent of ten. -/
structure Numeral where
  whole : List Char
  fraction : List Char
  exponent : Int

namespace Numeral

/-- The number that a nonempty run of digits stands for. -/
def digits? (cs : List Char) : Option Nat :=
  if !cs.isEmpty && cs.all Char.isDigit then some (Nat.ofDigitChars 10 cs 0) else none

/-- The whole number that a run of digits stands for, with an optional sign in front. -/
def signed? : List Char → Option Int
  | '+' :: cs => (digits? cs).map Int.ofNat
  | '-' :: cs => (digits? cs).map fun n => -Int.ofNat n
  | cs => (digits? cs).map Int.ofNat

/-- The exponent of ten that ends a numeral, zero if there is none. -/
def exponent? : List Char → Option Int
  | [] => some 0
  | c :: cs => if c = 'e' ∨ c = 'E' then signed? cs else none

/-- The numeral with the given digits before the point and, of the rest of its text, the
point, the digits after it and the exponent. -/
def ofRest? (whole rest : List Char) : Option Numeral :=
  let (fraction, rest) :=
    match rest with
    | '.' :: cs => (cs.takeWhile Char.isDigit, cs.dropWhile Char.isDigit)
    | cs => ([], cs)
  if whole.isEmpty && fraction.isEmpty then
    none
  else
    (exponent? rest).map (⟨whole, fraction, ·⟩)

/-- The numeral with the given text. -/
def ofChars? (cs : List Char) : Option Numeral :=
  ofRest? (cs.takeWhile Char.isDigit) (cs.dropWhile Char.isDigit)

/-- The magnitude nearest to the value of a numeral.  One with its last digit beyond the
309th place before the point is infinite, and one with its first digit beyond the 324th place
after the point is zero, so that no power of ten is formed for them. -/
def nearest (n : Numeral) : Nat :=
  let digits := Nat.ofDigitChars 10 (n.whole ++ n.fraction) 0
  let last := n.exponent - n.fraction.length
  if digits = 0 ∨ n.exponent + n.whole.length ≤ -324 then
    0
  else if 309 ≤ last then
    Number.infinity
  else
    Decimal.nearest ⟨digits * Nat.pow 10 last.toNat, (-last).toNat⟩

end Numeral

namespace Number

/-- The magnitude with the given text. -/
def magnitude? (cs : List Char) : Option Nat :=
  let name := cs.map Char.toLower
  if name = "inf".toList ∨ name = "infinity".toList then
    some infinity
  else if name = "nan".toList then
    some notANumber
  else
    (Numeral.ofChars? cs).map Numeral.nearest

/-- The double with the given text. -/
def ofChars? : List Char → Option Float
  | '+' :: cs => (magnitude? cs).map (ofMagnitude false)
  | '-' :: cs => (magnitude? cs).map (ofMagnitude true)
  | cs => (magnitude? cs).map (ofMagnitude false)

/-- The double with the given text, if it is the text of one. -/
def ofText? (s : String) : Option Float :=
  ofChars? s.toList

end Number

end LineBasic
