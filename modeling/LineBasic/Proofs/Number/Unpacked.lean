import LineBasic.Number.Magnitude
import Mathlib

/-!
# Doubles taken apart

Doubles are added and compared by way of their parts: a sign, a mantissa and an exponent.  Of a
finite double the parts stand for as many quanta as its magnitude does.  Hence finite doubles are
compared like the numbers of their quanta, and only the zeros of the two signs are equal to zero.
-/

namespace LineBasic.Number

open Float.Model (Format UnpackedFloat)
open Float.Model.UnpackedFloat (Sign unpackMantissa unpackExponent unpackSign)

/-! ### The parts of a word -/

/-- The word of a double. -/
def word (x : Float) : BitVec Format.binary64.numBits :=
  x.toModel.toBits.toBitVec

/-- The sign of a double. -/
def sign (x : Float) : Sign :=
  if isNegative x then .negative else .positive

theorem magnitude_lt (x : Float) :
  magnitude x < 2 ^ 63
  := Nat.mod_lt _ (by decide)

theorem toNat_unpackMantissa (x : Float) :
  (unpackMantissa (word x)).toNat = magnitude x % 2 ^ 52
  := by
  have hmod : magnitude x % 2 ^ 52 = (word x).toNat % 2 ^ 52 :=
    Nat.mod_mod_of_dvd _ (Nat.pow_dvd_pow 2 (by decide))
  rw [hmod]
  simp [unpackMantissa, BitVec.extractLsb_toNat]

theorem toNat_unpackExponent (x : Float) :
  (unpackExponent (word x)).toNat = magnitude x / 2 ^ 52
  := by
  have hdiv : magnitude x / 2 ^ 52 = (word x).toNat / 2 ^ 52 % 2 ^ 11 :=
    Nat.mod_mul_right_div_self _ (2 ^ 52) (2 ^ 11)
  rw [hdiv]
  simp [unpackExponent, BitVec.extractLsb_toNat, Nat.shiftRight_eq_div_pow]

theorem unpackMantissa_eq_iff {x : Float} {m : BitVec 52} :
  unpackMantissa (word x) = m ↔ magnitude x % 2 ^ 52 = m.toNat
  := by
  rw [← toNat_unpackMantissa]
  exact BitVec.toNat_inj.symm

theorem unpackExponent_eq_iff {x : Float} {e : BitVec 11} :
  unpackExponent (word x) = e ↔ magnitude x / 2 ^ 52 = e.toNat
  := by
  rw [← toNat_unpackExponent]
  exact BitVec.toNat_inj.symm

/-- The exponents of finite doubles are those below the largest one. -/
theorem isFinite_iff {x : Float} :
  isFinite x = true ↔ magnitude x / 2 ^ 52 ≠ 2047
  := by
  have hlt := magnitude_lt x
  have hfinite : isFinite x = true ↔ magnitude x < 2047 * 2 ^ 52 := decide_eq_true_iff
  rw [hfinite]
  omega

theorem ofBitVec_unpackSign (x : Float) :
  Sign.ofBitVec (unpackSign (word x)) = sign x
  := by
  have hlt : (word x).toNat < 2 ^ 64 := (word x).isLt
  have hbit : (unpackSign (word x)).toNat = (word x).toNat / 2 ^ 63 % 2 := by
    simp [unpackSign, BitVec.extractLsb_toNat, Nat.shiftRight_eq_div_pow]
  have hneg : isNegative x = true ↔ 2 ^ 63 ≤ (word x).toNat := decide_eq_true_iff
  have hiff : unpackSign (word x) = 0#1 ↔ ¬ isNegative x = true := by
    rw [← BitVec.toNat_inj, hbit, hneg, BitVec.toNat_ofNat]
    omega
  rw [Sign.ofBitVec, sign]
  by_cases h : isNegative x = true
  · rw [if_pos h, if_neg fun hzero => hiff.mp hzero h]
  · rw [if_neg h, if_pos (hiff.mpr h)]

/-- Doubles with the same magnitude and sign are equal. -/
theorem eq_of_magnitude_eq {x y : Float} (h : magnitude x = magnitude y)
    (hs : isNegative x = isNegative y) :
  x = y
  := by
  have hx : x.toBits.toNat < 2 ^ 64 := x.toBits.toNat_lt
  have hy : y.toBits.toNat < 2 ^ 64 := y.toBits.toNat_lt
  have hlow : x.toBits.toNat % 2 ^ 63 = y.toBits.toNat % 2 ^ 63 := h
  have hhigh : 2 ^ 63 ≤ x.toBits.toNat ↔ 2 ^ 63 ≤ y.toBits.toNat := decide_eq_decide.mp hs
  have hbits : x.toBits = y.toBits := by
    apply UInt64.toNat_inj.mp
    omega
  obtain ⟨⟨b, hb⟩⟩ := x
  obtain ⟨⟨b', hb'⟩⟩ := y
  cases hbits
  rfl

/-! ### Mantissas and exponents -/

/-- The mantissas and exponents of the finite doubles other than zero. -/
structure Canonical (m : Nat) (e : Int) : Prop where
  pos : 0 < m
  lt : m < 2 ^ 53
  le : -1074 ≤ e
  normal : e = -1074 ∨ 2 ^ 52 ≤ m

theorem Canonical.quanta_pos {m : Nat} {e : Int} (h : Canonical m e) :
  0 < m * 2 ^ (e + 1074).toNat
  := Nat.mul_pos h.pos (Nat.two_pow_pos _)

/-- A larger exponent makes up for any mantissa. -/
theorem Canonical.quanta_lt {m m' : Nat} {e e' : Int} (h : Canonical m e) (h' : Canonical m' e')
    (he : e < e') :
  m * 2 ^ (e + 1074).toNat < m' * 2 ^ (e' + 1074).toNat
  := by
  have hle := h.le
  have hfull : 2 ^ 52 ≤ m' := h'.normal.resolve_left (by omega)
  calc m * 2 ^ (e + 1074).toNat
      < 2 ^ 53 * 2 ^ (e + 1074).toNat := Nat.mul_lt_mul_of_pos_right h.lt (Nat.two_pow_pos _)
    _ = 2 ^ 52 * 2 ^ ((e + 1074).toNat + 1) := by rw [Nat.pow_succ]; omega
    _ ≤ m' * 2 ^ (e' + 1074).toNat :=
      Nat.mul_le_mul hfull (Nat.pow_le_pow_right (by decide) (by omega))

/-- Mantissas and exponents are compared like the numbers that they stand for. -/
theorem Canonical.compare_eq {m m' : Nat} {e e' : Int} (h : Canonical m e) (h' : Canonical m' e') :
  (compare e e').then (compare m m') =
    compare (m * 2 ^ (e + 1074).toNat) (m' * 2 ^ (e' + 1074).toNat)
  := by
  rcases lt_trichotomy e e' with he | rfl | he
  · rw [compare_lt_iff_lt.mpr he, compare_lt_iff_lt.mpr (h.quanta_lt h' he)]
    rfl
  · have hpos := Nat.two_pow_pos (e + 1074).toNat
    rw [compare_eq_iff_eq.mpr rfl]
    rcases lt_trichotomy m m' with hm | rfl | hm
    · rw [compare_lt_iff_lt.mpr hm, compare_lt_iff_lt.mpr (Nat.mul_lt_mul_of_pos_right hm hpos)]
      rfl
    · rw [compare_eq_iff_eq.mpr rfl, compare_eq_iff_eq.mpr rfl]
      rfl
    · rw [compare_gt_iff_gt.mpr hm, compare_gt_iff_gt.mpr (Nat.mul_lt_mul_of_pos_right hm hpos)]
      rfl
  · rw [compare_gt_iff_gt.mpr he, compare_gt_iff_gt.mpr (h'.quanta_lt h he)]
    rfl

/-- What a double is taken apart into. -/
inductive Unpacked (x : Float) : UnpackedFloat → Prop
  | notANumber (h : isFinite x = false) : Unpacked x .notANumber
  | infinity {s : Sign} (h : isFinite x = false) : Unpacked x (.infinity s)
  | zero (h : isFinite x = true) (hz : magnitude x = 0) : Unpacked x (.zero (sign x))
  | finite {m : Nat} {e : Int} {hm : 0 < m} (h : isFinite x = true) (hc : Canonical m e)
    (hq : quanta (magnitude x) = m * 2 ^ (e + 1074).toNat) :
    Unpacked x (.finite (sign x) m e hm)

theorem quanta_of_exponent {b : Nat} (h : b / 2 ^ 52 ≠ 0) :
  quanta b = (2 ^ 52 + b % 2 ^ 52) * 2 ^ (b / 2 ^ 52 - 1)
  := by
  have hle : ¬ b < 2 ^ 52 := by omega
  exact if_neg hle

theorem quanta_of_lt {b : Nat} (h : b < 2 ^ 52) :
  quanta b = b
  := if_pos h

/-- With the lowest exponent, a mantissa is taken as it is. -/
theorem canonical_of_low {b : Nat} (hlow : b / 2 ^ 52 = 0) (hpos : b % 2 ^ 52 ≠ 0) :
  Canonical (b % 2 ^ 52) ((b / 2 ^ 52 : Nat) - (1023 + 52) + 1) ∧
    quanta b = b % 2 ^ 52 * 2 ^ (((b / 2 ^ 52 : Nat) - (1023 + 52) + 1 : Int) + 1074).toNat
  := by
  refine ⟨⟨by omega, by omega, by omega, .inl (by omega)⟩, ?_⟩
  rw [quanta_of_lt (by omega), hlow]
  change b = b % 2 ^ 52 * 1
  omega

/-- With any other exponent, a leading bit is put before a mantissa. -/
theorem canonical_of_high {b : Nat} (hhigh : b / 2 ^ 52 ≠ 0) :
  Canonical (2 ^ 52 + b % 2 ^ 52) ((b / 2 ^ 52 : Nat) - (1023 + 52)) ∧
    quanta b =
      (2 ^ 52 + b % 2 ^ 52) * 2 ^ (((b / 2 ^ 52 : Nat) - (1023 + 52) : Int) + 1074).toNat
  := by
  have hshift : (((b / 2 ^ 52 : Nat) - (1023 + 52) : Int) + 1074).toNat = b / 2 ^ 52 - 1 := by
    omega
  refine ⟨⟨by omega, by omega, by omega, .inr (by omega)⟩, ?_⟩
  rw [hshift, quanta_of_exponent hhigh]

theorem unpacked (x : Float) :
  Unpacked x x.toModel.unpack
  := by
  change Unpacked x (UnpackedFloat.unpack .binary64 (word x))
  rw [UnpackedFloat.unpack]
  simp only [ofBitVec_unpackSign]
  split
  · next hones =>
    have hinfinite : isFinite x = false := by
      rw [← Bool.not_eq_true, isFinite_iff, not_ne_iff]
      apply unpackExponent_eq_iff.mp hones
    split
    · exact .infinity hinfinite
    · exact .notANumber hinfinite
  · next hones =>
    have hfinite : isFinite x = true := by
      apply isFinite_iff.mpr
      intro hlarge
      apply hones
      apply unpackExponent_eq_iff.mpr hlarge
    have hmantissa := toNat_unpackMantissa x
    have hexponent := toNat_unpackExponent x
    split
    · next hzero =>
      have hlow := unpackExponent_eq_iff.mp hzero
      split
      · next hnone =>
        have hm := unpackMantissa_eq_iff.mp hnone
        apply Unpacked.zero hfinite
        rw [← Nat.div_add_mod (magnitude x) (2 ^ 52), hlow, hm]
        rfl
      · next hsome =>
        have hpos := mt (unpackMantissa_eq_iff (m := 0)).mpr hsome
        obtain ⟨hc, hq⟩ := canonical_of_low hlow hpos
        rw [← hmantissa, ← hexponent] at hc hq
        exact .finite hfinite hc hq
    · next hzero =>
      have hhigh := mt (unpackExponent_eq_iff (e := 0)).mpr hzero
      obtain ⟨hc, hq⟩ := canonical_of_high hhigh
      have hfull : (1#1 ++ unpackMantissa (word x)).toNat = 2 ^ 52 + magnitude x % 2 ^ 52 := by
        rw [← hmantissa, BitVec.toNat_append, ← Nat.shiftLeft_add_eq_or_of_lt (BitVec.isLt _)]
        rfl
      rw [← hfull, ← hexponent] at hc hq
      exact .finite hfinite hc hq

/-! ### Comparing -/

/-- The number of quanta of a double, with its sign. -/
def signedQuanta (x : Float) : Int :=
  (sign x).apply (quanta (magnitude x))

theorem signedQuanta_of_magnitude_eq_zero {x : Float} (h : magnitude x = 0) :
  signedQuanta x = 0
  := by
  rw [signedQuanta, h]
  cases sign x with
  | negative | positive => rfl

theorem apply_negative_lt {n : Nat} (h : 0 < n) :
  Sign.negative.apply n < 0
  := Int.neg_neg_of_pos (Int.ofNat_lt.mpr h)

theorem lt_apply_positive {n : Nat} (h : 0 < n) :
  0 < Sign.positive.apply n
  := Int.ofNat_lt.mpr h

/-- Under a negative sign numbers are compared the other way round. -/
theorem compare_apply (s : Sign) (n n' : Nat) :
  compare (s.apply n) (s.apply n') =
    match s with
    | .positive => compare n n'
    | .negative => (compare n n').swap
  := by
  rcases lt_trichotomy n n' with hn | rfl | hn
  · rw [compare_lt_iff_lt.mpr hn]
    cases s with
    | negative => exact compare_gt_iff_gt.mpr (Int.neg_lt_neg (Int.ofNat_lt.mpr hn))
    | positive => exact compare_lt_iff_lt.mpr (Int.ofNat_lt.mpr hn)
  · rw [compare_eq_iff_eq.mpr rfl, compare_eq_iff_eq.mpr rfl]
    cases s with
    | negative | positive => rfl
  · rw [compare_gt_iff_gt.mpr hn]
    cases s with
    | negative => exact compare_lt_iff_lt.mpr (Int.neg_lt_neg (Int.ofNat_lt.mpr hn))
    | positive => exact compare_gt_iff_gt.mpr (Int.ofNat_lt.mpr hn)

section Parts

variable {s s' : Sign} {m m' : Nat} {e e' : Int} {hm : 0 < m} {hm' : 0 < m'}

theorem compare_zero_finite (h : Canonical m e) :
  (UnpackedFloat.zero s').compare (.finite s m e hm) =
    some (compare 0 (s.apply (m * 2 ^ (e + 1074).toNat : Nat)))
  := by
  cases s with
  | negative =>
    rw [compare_gt_iff_gt.mpr (apply_negative_lt h.quanta_pos)]
    rfl
  | positive =>
    rw [compare_lt_iff_lt.mpr (lt_apply_positive h.quanta_pos)]
    rfl

theorem compare_finite_zero (h : Canonical m e) :
  (UnpackedFloat.finite s m e hm).compare (.zero s') =
    some (compare (s.apply (m * 2 ^ (e + 1074).toNat : Nat)) 0)
  := by
  cases s with
  | negative =>
    rw [compare_lt_iff_lt.mpr (apply_negative_lt h.quanta_pos)]
    rfl
  | positive =>
    rw [compare_gt_iff_gt.mpr (lt_apply_positive h.quanta_pos)]
    rfl

theorem compare_finite (h : Canonical m e) (h' : Canonical m' e') :
  (UnpackedFloat.finite s m e hm).compare (.finite s' m' e' hm') =
    some (compare (s.apply (m * 2 ^ (e + 1074).toNat : Nat))
      (s'.apply (m' * 2 ^ (e' + 1074).toNat : Nat)))
  := by
  have hcompare := h.compare_eq h'
  cases s with
  | negative =>
    cases s' with
    | negative => rw [UnpackedFloat.compare, hcompare, compare_apply]
    | positive =>
      have hlt := (apply_negative_lt h.quanta_pos).trans (lt_apply_positive h'.quanta_pos)
      rw [compare_lt_iff_lt.mpr hlt]
      rfl
  | positive =>
    cases s' with
    | negative =>
      have hlt := (apply_negative_lt h'.quanta_pos).trans (lt_apply_positive h.quanta_pos)
      rw [compare_gt_iff_gt.mpr hlt]
      rfl
    | positive => rw [UnpackedFloat.compare, hcompare, compare_apply]

end Parts

/-- The parts of finite doubles are compared like the numbers of their quanta. -/
theorem compare_unpack {x y : Float} (hx : isFinite x = true) (hy : isFinite y = true) :
  x.toModel.unpack.compare y.toModel.unpack = some (compare (signedQuanta x) (signedQuanta y))
  := by
  have hparts := unpacked x
  have hparts' := unpacked y
  generalize x.toModel.unpack = u at hparts
  generalize y.toModel.unpack = v at hparts'
  cases hparts with
  | notANumber h | infinity h => cases hx.symm.trans h
  | zero _ hz =>
    rw [signedQuanta_of_magnitude_eq_zero hz]
    cases hparts' with
    | notANumber h | infinity h => cases hy.symm.trans h
    | zero _ hz' =>
      rw [signedQuanta_of_magnitude_eq_zero hz']
      rfl
    | finite _ hc hq =>
      rw [signedQuanta, hq]
      apply compare_zero_finite hc
  | finite _ hc hq =>
    rw [signedQuanta, hq]
    cases hparts' with
    | notANumber h | infinity h => cases hy.symm.trans h
    | zero _ hz' =>
      rw [signedQuanta_of_magnitude_eq_zero hz']
      apply compare_finite_zero hc
    | finite _ hc' hq' =>
      rw [signedQuanta, hq']
      apply compare_finite hc hc'

theorem lt_iff_compare {x y : Float} :
  x < y ↔ x.toModel.unpack.compare y.toModel.unpack = some .lt
  := by
  have hlt : x < y ↔ (x.toModel.unpack.compare y.toModel.unpack == some .lt) = true :=
    decide_eq_true_iff
  rw [hlt, beq_iff_eq]

/-- Finite doubles are compared like the numbers of their quanta. -/
theorem lt_iff {x y : Float} (hx : isFinite x = true) (hy : isFinite y = true) :
  x < y ↔ signedQuanta x < signedQuanta y
  := by
  rw [lt_iff_compare, compare_unpack hx hy, Option.some_inj, compare_lt_iff_lt]

/-- Nothing is greater than what is not a number. -/
theorem not_gt_of_isNaN {x y : Float} (hy : y.isNaN = true) :
  ¬ x > y
  := by
  intro h
  have hnan : y.toModel.unpack.isNaN = true := hy
  rw [gt_iff_lt, lt_iff_compare] at h
  cases hparts : y.toModel.unpack with
  | notANumber =>
    rw [hparts] at h
    cases h
  | infinity | zero | finite =>
    rw [hparts] at hnan
    cases hnan

/-- The zeros of the two signs are equal to zero, and nothing else is. -/
theorem beq_zero_iff {x : Float} :
  (x == 0.0) = true ↔ x = 0.0 ∨ x = -0.0
  := by
  constructor
  · intro h
    have hzero : (x.toModel.unpack.compare (.zero .positive) == some .eq) = true := h
    have hparts := unpacked x
    have hmagnitude : magnitude x = 0 := by
      generalize x.toModel.unpack = u at hparts hzero
      cases hparts with
      | zero _ hz => apply hz
      | notANumber => cases hzero
      | @infinity s =>
        cases s with
        | negative | positive => cases hzero
      | finite =>
        cases hs : sign x with
        | negative | positive =>
          rw [hs] at hzero
          cases hzero
    cases hs : isNegative x with
    | false => exact .inl (eq_of_magnitude_eq hmagnitude hs)
    | true => exact .inr (eq_of_magnitude_eq hmagnitude hs)
  · rintro (rfl | rfl)
    all_goals rfl

end LineBasic.Number
