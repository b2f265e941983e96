import LineBasic.Number.Arithmetic
import LineBasic.Proofs.Number.Product
import LineBasic.Proofs.Number.Whole

/-!
# Powers

A power is a product of factors that are multiplied one after the other.  Products that have
reached a fixed point, or that alternate between two doubles that differ only in their sign, do not
have to be multiplied any further.  The whole exponent is confined to 32 bits, whose largest number
is odd, so that the sign of a power is not that of the exponent where the exponent is beyond it.
-/

namespace LineBasic.Number

open Float.Model (UnpackedFloat)
open Float.Model.UnpackedFloat (Sign)

variable {x y : Float} {n : Nat} {z : Int}

/-! ### Multiplying repeatedly -/

/-- Doubles that compare as equal are those that are equal and the zeros. -/
theorem eq_or_of_beq (h : (x == y) = true) :
  x = y ∨ x = 0 ∧ y = -0 ∨ x = -0 ∧ y = 0
  := (Float.beq_iff_ne_nan_and_eq.mp h).2.2

/-- A product that compares as equal to the negated one before it, but is not this one itself, is
the negated one. -/
theorem eq_neg_of_beq (h : (x == -y) = true) (hne : x ≠ y) :
  x = -y
  := by
  rcases eq_or_of_beq h with heq | ⟨rfl, hy⟩ | ⟨rfl, hy⟩
  · apply heq
  · rw [← Number.neg_neg y, hy, Number.neg_neg] at hne
    contradiction
  · rw [← Number.neg_neg y, hy] at hne
    contradiction

/-- What is not equal to itself is not a number. -/
theorem isNaN_of_bne (h : (x != x) = true) :
  x.isNaN = true
  := by
  rw [Float.isNaN_eq_decide_eq_nan]
  apply decide_eq_true
  by_contra hx
  rw [bne, Float.beq_iff_ne_nan_and_eq.mpr ⟨hx, hx, .inl rfl⟩] at h
  contradiction

/-- A product that is not a number, or has the same bits as the one before it, is a fixed point. -/
theorem mul_mul_of_last
    (h : (y * x != y * x || (y * x == y && (y * x).toBits = y.toBits)) = true) :
  y * x * x = y * x
  := by
  rcases Bool.or_eq_true_iff.mp h with hnan | hsame
  · apply mul_of_isNaN (isNaN_of_bne hnan)
  · have hbits : (y * x).toBits = y.toBits := of_decide_eq_true (Bool.and_eq_true_iff.mp hsame).2
    rw [Float.toBits_inj.mp hbits, Float.toBits_inj.mp hbits]

/-- From where a further factor negates the product, the products alternate. -/
theorem iterate_of_neg (h : y * x = -y) (n : Nat) :
  (fun product => product * x)^[n] y = if n % 2 = 0 then y else -y
  := by
  have hback : -y * x = y := by
    rw [Number.neg_mul, h, Number.neg_neg]
  have hperiod : Function.IsPeriodicPt (fun product => product * x) 2 y := by
    change y * x * x = y
    rw [h, hback]
  rw [← hperiod.iterate_mod_apply n]
  rcases Nat.mod_two_eq_zero_or_one n with hn | hn
  · rw [hn]
    rfl
  · rw [hn]
    apply h

/-- Where the multiplication is left early, the product is that of all the factors. -/
theorem multiplied_eq_iterate (x : Float) (n : Nat) (y : Float) :
  multiplied x n y = (fun product => product * x)^[n] y
  := by
  induction n generalizing y with
  | zero => rfl
  | succ n ih =>
    rw [multiplied, Function.iterate_succ_apply]
    split
    · next hlast =>
      exact (Function.iterate_fixed (mul_mul_of_last hlast) n).symm
    · next hlast =>
      split
      · next hneg =>
        have hne : y * x ≠ y := by
          intro heq
          apply hlast
          rw [heq, decide_eq_true rfl, Bool.and_true, bne, Bool.not_or_self]
        -- The next product is the negated one, from which a further factor leads back.
        have hnext := eq_neg_of_beq hneg hne
        have hback : -y * x = - -y := by
          rw [Number.neg_mul, hnext]
        rw [hnext, iterate_of_neg hback, Number.neg_neg]
      · apply ih

/-! ### The whole exponent -/

/-- Without its fraction, a double is the number of its quanta divided by that of one. -/
theorem truncate_eq (x : Float) :
  truncate x = (signedQuanta x).tdiv unit
  := by
  rw [truncate, signedQuanta, sign]
  cases isNegative x with
  | false => rfl
  | true => exact Eq.symm (Int.neg_tdiv (quanta (magnitude x) : Int) unit)

theorem wholeExponent_of_isNaN (h : y.isNaN = true) :
  wholeExponent y = 0
  := if_pos h

theorem wholeExponent_eq (h : y.isNaN = false) :
  wholeExponent y = max (-2 ^ 31) (min (2 ^ 31 - 1) ((signedQuanta y).tdiv unit))
  := by
  rw [wholeExponent, h, truncate_eq]
  rfl

theorem isNaN_of_isFinite (h : isFinite x = true) :
  x.isNaN = false
  := by
  have hparts := unpacked x
  rw [← Bool.not_eq_true]
  intro hnan
  have hx : x.toModel.unpack = .notANumber := isNaN_iff.mp hnan
  rw [hx] at hparts
  cases hparts with
  | notANumber hinfinite => cases h.symm.trans hinfinite

/-- An infinite double counts as many quanta as any number out of range. -/
theorem le_quanta_of_infinite (h : isFinite x = false) :
  2 ^ 31 * unit ≤ quanta (magnitude x)
  := by
  have hlarge : magnitude x / 2 ^ 52 = 2047 := by
    rw [← Bool.not_eq_true, isFinite_iff, not_ne_iff] at h
    apply h
  -- The exponents are given names so that their powers are not computed.
  obtain ⟨n, hn⟩ : ∃ n, n = 1074 := ⟨_, rfl⟩
  obtain ⟨j, hj⟩ : ∃ j, 2047 - 1 = n + j := ⟨972, by rw [hn]⟩
  rw [quanta_of_exponent (by omega), hlarge, hj, unit_eq hn, Nat.pow_add, Nat.mul_comm (2 ^ n),
    ← Nat.mul_assoc]
  apply Nat.mul_le_mul_right
  have hpos := Nat.two_pow_pos j
  calc 2 ^ 31
      ≤ (2 ^ 52 + magnitude x % 2 ^ 52) * 1 := by omega
    _ ≤ (2 ^ 52 + magnitude x % 2 ^ 52) * 2 ^ j := Nat.mul_le_mul_left _ hpos

/-- An infinite exponent is confined to the largest or the smallest one. -/
theorem wholeExponent_of_infinite (h : isFinite y = false) (hnan : y.isNaN = false) :
  wholeExponent y = if isNegative y then -2 ^ 31 else 2 ^ 31 - 1
  := by
  have hdiv : 2 ^ 31 ≤ quanta (magnitude y) / unit :=
    (Nat.le_div_iff_mul_le unit_pos).mpr (le_quanta_of_infinite h)
  rw [wholeExponent, hnan, truncate]
  generalize quanta (magnitude y) / unit = q at hdiv
  change max (-2 ^ 31) (min (2 ^ 31 - 1) (if isNegative y then -(q : Int) else q)) = _
  cases isNegative y with
  | false =>
    change max (-2 ^ 31) (min (2 ^ 31 - 1) (q : Int)) = 2 ^ 31 - 1
    omega
  | true =>
    change max (-2 ^ 31) (min (2 ^ 31 - 1) (-(q : Int))) = -2 ^ 31
    omega

theorem wholeExponent_le (y : Float) :
  -2 ^ 31 ≤ wholeExponent y ∧ wholeExponent y ≤ 2 ^ 31 - 1
  := by
  cases hnan : y.isNaN with
  | true =>
    rw [wholeExponent_of_isNaN hnan]
    decide
  | false =>
    rw [wholeExponent_eq hnan]
    omega

/-- The whole exponent is one of 32 bits, and one less than it one of 64 bits. -/
theorem toInt_wholeExponent (y : Float) :
  (Int32.ofInt (wholeExponent y)).toInt = wholeExponent y ∧
    ((Int32.ofInt (wholeExponent y)).toInt64 - 1).toInt = wholeExponent y - 1
  := by
  obtain ⟨hle, hlt⟩ := wholeExponent_le y
  have hnarrow : (Int32.ofInt (wholeExponent y)).toInt = wholeExponent y :=
    Int32.toInt_ofInt_of_le hle (by omega)
  refine ⟨hnarrow, ?_⟩
  have hone : Int64.toInt 1 = 1 := rfl
  rw [Int64.toInt_sub, Int32.toInt_toInt64, hnarrow, hone]
  apply Int.bmod_eq_of_le
  · omega
  · omega

/-! ### Powers are products -/

theorem power_of_zero (h : y = 0.0 ∨ y = -0.0) :
  power x y = 1.0
  := if_pos (beq_zero_iff.mpr h)

/-- Except for the exponent zero, a power is the product of the base and one factor less than the
whole exponent says. -/
theorem power_eq_iterate (h : ¬ (y = 0.0 ∨ y = -0.0)) :
  power x y = (fun product => product * x)^[(wholeExponent y - 1).toNat] x
  := by
  rw [power, if_neg (mt beq_zero_iff.mp h), multiplied_eq_iterate]

/-- Powers are products of factors that are multiplied one after the other.  The exponent zero gives
one.  Any other exponent is truncated and confined to 32 bits, the value that is not a number
counting as zero, and the base is multiplied by itself once less than this, and not at all if that
is not positive.  The number of the factors does not overflow. -/
theorem powers_are_products (x y : Float) :
  (y = 0.0 ∨ y = -0.0 → power x y = 1.0) ∧
    (¬ (y = 0.0 ∨ y = -0.0) →
      power x y = (fun product => product * x)^[(wholeExponent y - 1).toNat] x ∧
        (wholeExponent y - 1 ≤ 0 → power x y = x)) ∧
    (y.isNaN = true → wholeExponent y = 0) ∧
    (isFinite y = true →
      wholeExponent y = max (-2 ^ 31) (min (2 ^ 31 - 1) ((signedQuanta y).tdiv unit))) ∧
    (isFinite y = false → y.isNaN = false →
      wholeExponent y = if isNegative y then -2 ^ 31 else 2 ^ 31 - 1) ∧
    (Int32.ofInt (wholeExponent y)).toInt = wholeExponent y ∧
    ((Int32.ofInt (wholeExponent y)).toInt64 - 1).toInt = wholeExponent y - 1
  := by
  refine ⟨power_of_zero, ?_, wholeExponent_of_isNaN, ?_, wholeExponent_of_infinite,
    toInt_wholeExponent y⟩
  · intro hzero
    refine ⟨power_eq_iterate hzero, ?_⟩
    intro hnone
    rw [power_eq_iterate hzero, Int.toNat_of_nonpos hnone]
    rfl
  · intro hfinite
    apply wholeExponent_eq (isNaN_of_isFinite hfinite)

theorem powers_are_products_of_minus_two :
  power (-2.0) (-0.0) = 1.0 ∧
    ¬ ((3.5 : Float) = 0.0 ∨ (3.5 : Float) = -0.0) ∧
    wholeExponent 3.5 = 3 ∧ power (-2.0) 3.5 = -2.0 * -2.0 * -2.0 ∧
    (0.0 / 0.0 : Float).isNaN = true ∧ wholeExponent (0.0 / 0.0) = 0 ∧
    isFinite (-1.0 / 0.0) = false ∧ wholeExponent (-1.0 / 0.0) = -2 ^ 31
  := by
  have hne : ¬ ((3.5 : Float) = 0.0 ∨ (3.5 : Float) = -0.0) := by
    rw [← beq_zero_iff]
    decide +kernel
  have hnan : (0.0 / 0.0 : Float).isNaN = true := by
    decide +kernel
  have hfinite : isFinite 3.5 = true := by
    decide +kernel
  have hinfinite : isFinite (-1.0 / 0.0) = false := by
    decide +kernel
  have hexponent : wholeExponent 3.5 = 3 := by
    rw [(powers_are_products (-2.0) 3.5).2.2.2.1 hfinite]
    decide +kernel
  refine ⟨(powers_are_products _ _).1 (.inr rfl), hne, hexponent, ?_, hnan,
    (powers_are_products (-2.0) _).2.2.1 hnan, hinfinite, ?_⟩
  · rw [((powers_are_products (-2.0) 3.5).2.1 hne).1, hexponent]
    rfl
  · rw [(powers_are_products (-2.0) _).2.2.2.2.1 hinfinite (by decide +kernel)]
    decide +kernel

/-! ### Signs of powers -/

/-- What products of several factors are taken apart into, depending on the parts of the factor.
They are never those of what is not a number, since a factor zero does not meet an infinite one. -/
inductive Multiple : UnpackedFloat → UnpackedFloat → Prop
  | infinity {s t : Sign} : Multiple (.infinity s) (.infinity t)
  | zero {s t : Sign} : Multiple (.zero s) (.zero t)
  | finite {u : UnpackedFloat} {t : Sign} {m : Nat} {e : Int} {hm : 0 < m} (h : u ≠ .notANumber) :
    Multiple u (.finite t m e hm)

section Multiple

variable {u v : UnpackedFloat}

theorem multiple_self (h : u ≠ .notANumber) :
  Multiple u u
  := by
  cases u with
  | notANumber => contradiction
  | infinity => exact .infinity
  | zero => exact .zero
  | finite => exact .finite nofun

theorem Multiple.ne_notANumber (h : Multiple u v) :
  u ≠ .notANumber
  := by
  cases h with
  | infinity | zero => nofun
  | finite hu => apply hu

theorem Multiple.mul (h : Multiple u v) :
  Multiple (UnpackedFloat.mul .binary64 u v) v
  := by
  cases h with
  | infinity => exact .infinity
  | zero => exact .zero
  | finite hu =>
    apply Multiple.finite
    cases u with
    | notANumber => contradiction
    | infinity | zero => nofun
    | finite => exact (signed_roundWithAccuracy _ _ _ _).ne_notANumber

theorem Multiple.parts_packed (h : Multiple u v) :
  Multiple (parts (packed u)) v
  := by
  cases h with
  | @infinity s =>
    cases s with
    | negative | positive => exact .infinity
  | @zero s =>
    cases s with
    | negative | positive => exact .zero
  | finite hu => exact .finite (parts_packed_ne hu)

end Multiple

/-- A product of several factors is a number if the factor is. -/
theorem multiple_iterate (h : x.isNaN = false) (n : Nat) :
  Multiple (parts ((fun product => product * x)^[n] x)) (parts x)
  := by
  induction n with
  | zero =>
    apply multiple_self
    rw [← Bool.not_eq_true, isNaN_iff] at h
    apply h
  | succ n ih =>
    rw [Function.iterate_succ_apply']
    apply ih.mul.parts_packed

theorem isNaN_iterate (h : x.isNaN = false) (n : Nat) :
  ((fun product => product * x)^[n] x).isNaN = false
  := by
  rw [← Bool.not_eq_true, isNaN_iff]
  apply (multiple_iterate h n).ne_notANumber

/-- Each factor contributes its sign once. -/
theorem isNegative_iterate (h : x.isNaN = false) (n : Nat) :
  isNegative ((fun product => product * x)^[n] x) = true ↔ isNegative x = true ∧ Odd (n + 1)
  := by
  induction n with
  | zero => exact (and_iff_left odd_one).symm
  | succ n ih =>
    have hnan := isNaN_iterate h (n + 1)
    rw [Function.iterate_succ_apply'] at hnan ⊢
    rw [isNegative_mul hnan, Bool.xor_iff_ne, Ne, Bool.eq_iff_iff, ih, and_iff_left_iff_imp,
      Classical.not_imp, ← Nat.odd_add_one]

theorem Whole.ne_zero (h : Whole y z) (hz : 1 ≤ z) :
  ¬ (y = 0.0 ∨ y = -0.0)
  := by
  have hunit : (unit : Int) ≠ 0 := (Int.ofNat_lt.mpr unit_pos).ne'
  intro hzero
  have hquanta : signedQuanta y = 0 := by
    apply signedQuanta_of_magnitude_eq_zero
    rcases hzero with rfl | rfl
    · rfl
    · rfl
  rw [h.signedQuanta_eq] at hquanta
  rcases Int.mul_eq_zero.mp hquanta with hz' | hunit'
  · omega
  · contradiction

theorem Whole.wholeExponent_eq (h : Whole y z) :
  wholeExponent y = max (-2 ^ 31) (min (2 ^ 31 - 1) z)
  := by
  have hunit : (unit : Int) ≠ 0 := (Int.ofNat_lt.mpr unit_pos).ne'
  rw [Number.wholeExponent_eq (isNaN_of_isFinite h.isFinite), h.signedQuanta_eq,
    Int.mul_tdiv_cancel _ hunit]

/-- The power of a number is a number, and its sign is set when that of the base is and the
exponent, confined to 32 bits, is odd.  This is the sign law of powers unless the exponent of a
negative base is even and beyond 32 bits, where the power has as many factors as an odd exponent
says. -/
theorem powers_have_sign (h : x.isNaN = false) (hy : Whole y z) (hz : 1 ≤ z) :
  (power x y).isNaN = false ∧
    (isNegative (power x y) = true ↔ isNegative x = true ∧ Odd (min z (2 ^ 31 - 1))) ∧
    ((isNegative (power x y) = true ↔ isNegative x = true ∧ Odd z) ↔
      ¬ (isNegative x = true ∧ Even z ∧ 2 ^ 31 ≤ z))
  := by
  have hpower := power_eq_iterate (x := x) (hy.ne_zero hz)
  have hexponent : wholeExponent y = min z (2 ^ 31 - 1) := by
    rw [hy.wholeExponent_eq]
    omega
  have hcount : (((wholeExponent y - 1).toNat + 1 : Nat) : Int) = min z (2 ^ 31 - 1) := by
    omega
  have hsign : isNegative (power x y) = true ↔
      isNegative x = true ∧ Odd (min z (2 ^ 31 - 1)) := by
    rw [hpower, isNegative_iterate h, ← Int.odd_coe_nat, hcount]
  refine ⟨by rw [hpower, isNaN_iterate h], hsign, ?_⟩
  rw [hsign]
  have hodd : Odd (min z (2 ^ 31 - 1)) ↔ Odd z ∨ 2 ^ 31 ≤ z := by
    rw [Int.odd_iff, Int.odd_iff]
    omega
  rw [hodd, ← Int.not_odd_iff_even, and_congr_right_iff, or_iff_left_iff_imp, not_and,
    and_comm (a := ¬ Odd z), not_and_not_right]

theorem powers_have_sign_of_minus_one :
  (-1.0 : Float).isNaN = false ∧ Whole 3.0 3 ∧ isNegative (power (-1.0) 3.0) = true ∧
    Whole 2147483648.0 (2 ^ 31) ∧
    ¬ (isNegative (power (-1.0) 2147483648.0) = true ↔
      isNegative (-1.0) = true ∧ Odd ((2 : Int) ^ 31))
  := by
  have hnan : (-1.0 : Float).isNaN = false := by
    decide +kernel
  have hneg : isNegative (-1.0) = true := by
    decide +kernel
  have hthree : Whole 3.0 3 := ⟨by decide +kernel, by decide +kernel⟩
  have hlarge : Whole 2147483648.0 (2 ^ 31) := ⟨by decide +kernel, by decide +kernel⟩
  refine ⟨hnan, hthree, ?_, hlarge, ?_⟩
  · apply (powers_have_sign hnan hthree (by decide)).2.1.mpr
    exact ⟨hneg, by decide⟩
  · rw [(powers_have_sign hnan hlarge (by decide)).2.2, not_not]
    exact ⟨hneg, by decide, by decide⟩

/-- With an even exponent beyond 32 bits, the sign of a power of minus one is set. -/
theorem not_powers_have_sign_of_large :
  ¬ ∀ (x y : Float) (z : Int), x.isNaN = false → Whole y z → 1 ≤ z →
    (isNegative (power x y) = true ↔ isNegative x = true ∧ Odd z)
  := by
  intro h
  have hlarge : Whole 2147483648.0 (2 ^ 31) := ⟨by decide +kernel, by decide +kernel⟩
  have hset : isNegative (power (-1.0) 2147483648.0) = true := by
    decide +kernel
  have hlaw := h (-1.0) 2147483648.0 (2 ^ 31) (by decide +kernel) hlarge (by decide)
  have hodd := (hlaw.mp hset).2
  revert hodd
  decide

end LineBasic.Number
