import LineBasic.Proofs.Number.Unpacked

/-!
# Counting

Whole numbers up to `2 ^ 53` have a full mantissa and an exponent of their own, so that nothing is
lost when they are rounded.  Hence one is added to a smaller whole number without loss, and counting
from a whole number comes to all those after it, one after the other.
-/

namespace LineBasic.Number

open Float.Model (Format UnpackedFloat)
open Float.Model.UnpackedFloat (ExtendedMantissa Sign packComponents unpackSign)

/-! ### Rounding full mantissas -/

section Round

variable {s : Sign} {m k : Nat} {e : Int}

/-- Shifting out zeros loses nothing. -/
theorem repeat_shiftRightOne (m k : Nat) :
  Nat.repeat ExtendedMantissa.shiftRightOne k ⟨m * 2 ^ k, false, false⟩ = ⟨m, false, false⟩
  := by
  induction k generalizing m with
  | zero =>
    rw [Nat.pow_zero, Nat.mul_one]
    rfl
  | succ k ih =>
    have hmul : m * 2 ^ (k + 1) = (m * 2) * 2 ^ k := by
      rw [Nat.pow_succ, Nat.mul_assoc, Nat.mul_comm 2]
    rw [Nat.repeat, hmul, ih, ExtendedMantissa.shiftRightOne]
    simp

/-- A full mantissa is given the exponent that leaves it full. -/
theorem targetExponent_eq (hm : 2 ^ 52 ≤ m) (hlt : m < 2 ^ 53) (he : -1074 ≤ e + k) :
  Format.binary64.targetExponent (Float.Model.totalExponent (m * 2 ^ k) e) = e + k
  := by
  have hpos := Nat.two_pow_pos k
  have hlog : (m * 2 ^ k).log2 = 52 + k := by
    apply (Nat.log2_eq_iff (Nat.mul_ne_zero (by omega) hpos.ne')).mpr
    rw [Nat.pow_add, Nat.add_right_comm, Nat.pow_add]
    exact ⟨Nat.mul_le_mul_right _ hm, Nat.mul_lt_mul_of_pos_right hlt hpos⟩
  have hbits : Format.binary64.mantissaBits = 53 := rfl
  have hmin : Format.binary64.minExponent = -1074 := rfl
  rw [Format.targetExponent, Float.Model.totalExponent, hlog, hbits, hmin]
  omega

theorem shiftToTargetExponent_eq (hm : 2 ^ 52 ≤ m) (hlt : m < 2 ^ 53) (he : -1074 ≤ e + k) :
  UnpackedFloat.shiftToTargetExponent .binary64 (m * 2 ^ k) e .exact = (⟨m, false, false⟩, e + k)
  := by
  have hk : (e + k - e).toNat = k := by omega
  rw [UnpackedFloat.shiftToTargetExponent, targetExponent_eq hm hlt he,
    UnpackedFloat.shiftToExponent, hk]
  exact congrArg (·, e + (k : Int)) (repeat_shiftRightOne m k)

/-- A number with a full mantissa is rounded to itself. -/
theorem round_eq (hm : 2 ^ 52 ≤ m) (hlt : m < 2 ^ 53) (he : -1074 ≤ e + k) :
  UnpackedFloat.round .binary64 s (m * 2 ^ k) e = .finite s m (e + k) (by omega)
  := by
  have hdecrease : UnpackedFloat.decreaseExponent (m * 2 ^ k) e (e + k) = (m * 2 ^ k, e) := by
    have hk : (e - (e + k)).toNat = 0 := by omega
    rw [UnpackedFloat.decreaseExponent, hk]
    simp
  have hshift := shiftToTargetExponent_eq hm hlt he
  have hrounded : ExtendedMantissa.roundedMantissa ⟨m, false, false⟩ = m := rfl
  -- The mantissa has not overflown, so that it is not shifted once more.
  have hagain := shiftToTargetExponent_eq (k := 0) (e := e + k) hm hlt (by omega)
  rw [Nat.pow_zero, Nat.mul_one, Int.natCast_zero, Int.add_zero] at hagain
  rw [UnpackedFloat.round, targetExponent_eq hm hlt he, hdecrease]
  simp only [UnpackedFloat.roundWithAccuracy, hshift, hrounded, hagain]
  rw [dif_neg (by omega)]

/-! ### Putting doubles together -/

/-- The word of a number with a full mantissa. -/
theorem pack_finite (hpos : 0 < m) (hm : 2 ^ 52 ≤ m) (hlt : m < 2 ^ 53) (he : -1074 ≤ e)
    (he' : e ≤ 971) :
  UnpackedFloat.pack .binary64 (.finite s m e hpos) =
    packComponents .binary64 s (BitVec.ofNat 11 (e + 1075).toNat) (BitVec.ofNat 52 m)
  := by
  have hlog : m.log2 + 1 = 53 := by
    rw [(Nat.log2_eq_iff hpos.ne').mpr ⟨hm, hlt⟩]
  have hbias : e + (1023 : Nat) + (52 : Nat) = e + 1075 := by omega
  have hover : ¬ 2 ^ 11 ≤ (e + 1075).toNat + 1 := by omega
  rw [← hbias] at hover ⊢
  change (if 2 ^ 11 ≤ (e + (1023 : Nat) + (52 : Nat)).toNat + 1 then _ else
    if m.log2 + 1 = 53 then _ else _) = _
  rw [if_neg hover, if_pos hlog]
  rfl

/-- A double that has been put together from a full mantissa stands for as many quanta. -/
theorem signedQuanta_of_pack {x : Float} {hpos : 0 < m} (hm : 2 ^ 52 ≤ m) (hlt : m < 2 ^ 53)
    (he : -1074 ≤ e) (he' : e ≤ 971) (hx : x.toModel = Float.Model.pack (.finite s m e hpos)) :
  isFinite x = true ∧ signedQuanta x = s.apply (m * 2 ^ (e + 1074).toNat)
  := by
  have hword : word x =
      packComponents .binary64 s (BitVec.ofNat 11 (e + 1075).toNat) (BitVec.ofNat 52 m) := by
    rw [← pack_finite hpos hm hlt he he', word, hx]
    rfl
  have hmantissa : magnitude x % 2 ^ 52 = m - 2 ^ 52 := by
    rw [← toNat_unpackMantissa, hword, UnpackedFloat.unpackMantissa_packComponents,
      BitVec.toNat_ofNat]
    change m % 2 ^ 52 = m - 2 ^ 52
    omega
  have hexponent : magnitude x / 2 ^ 52 = (e + 1075).toNat := by
    rw [← toNat_unpackExponent, hword, UnpackedFloat.unpackExponent_packComponents,
      BitVec.toNat_ofNat]
    change (e + 1075).toNat % 2 ^ 11 = (e + 1075).toNat
    omega
  have hsign : sign x = s := by
    rw [← ofBitVec_unpackSign, hword, UnpackedFloat.unpackSign_packComponents,
      Sign.ofBitVec_toBitVec]
  constructor
  · apply decide_eq_true
    change magnitude x < 2047 * 2 ^ 52
    omega
  · have hshift : (e + 1075).toNat - 1 = (e + 1074).toNat := by omega
    rw [signedQuanta, hsign, quanta_of_exponent (by omega), hmantissa, hexponent, hshift,
      Nat.add_sub_cancel' hm, Nat.cast_mul, Nat.cast_pow, Nat.cast_ofNat]

end Round

/-! ### Whole numbers -/

/-- The double stands for a whole number. -/
structure Whole (x : Float) (z : Int) : Prop where
  isFinite : isFinite x = true
  signedQuanta_eq : signedQuanta x = z * unit

theorem unit_eq {n : Nat} (h : n = 1074) :
  unit = 2 ^ n
  := by
  delta unit
  rw [← h]
  rfl

theorem unit_pos :
  0 < unit
  := by
  obtain ⟨n, hn⟩ : ∃ n, n = 1074 := ⟨_, rfl⟩
  rw [unit_eq hn]
  apply Nat.two_pow_pos

theorem whole_one :
  Whole 1.0 1
  where
  isFinite := by
    decide +kernel
  signedQuanta_eq := by
    decide +kernel

/-- Doubles that stand for whole numbers are compared like these. -/
theorem Whole.lt_iff {x y : Float} {a b : Int} (hx : Whole x a) (hy : Whole y b) :
  x < y ↔ a < b
  := by
  rw [Number.lt_iff hx.isFinite hy.isFinite, hx.signedQuanta_eq, hy.signedQuanta_eq]
  apply Int.mul_lt_mul_right (Int.ofNat_lt.mpr unit_pos)

theorem apply_mul (s : Sign) (n k : Nat) :
  s.apply ((n : Int) * k) = s.apply n * k
  := by
  cases s with
  | negative => exact (Int.neg_mul _ _).symm
  | positive => rfl

theorem natAbs_apply (s : Sign) (n : Nat) :
  (s.apply n).natAbs = n
  := by
  cases s with
  | negative => exact (Int.natAbs_neg _).trans (Int.natAbs_natCast n)
  | positive => exact Int.natAbs_natCast n

/-- A whole number up to `2 ^ 53` has a full mantissa. -/
theorem exists_mantissa {n : Nat} (hpos : 0 < n) (hle : n ≤ 2 ^ 53) :
  ∃ m k, n * 2 ^ 52 = m * 2 ^ k ∧ 2 ^ 52 ≤ m ∧ m < 2 ^ 53 ∧ k ≤ 53
  := by
  obtain ⟨hlow, hhigh⟩ := (Nat.log2_eq_iff hpos.ne').mp rfl
  rcases hle.lt_or_eq with hlt | rfl
  · have hk : n.log2 ≤ 52 := Nat.le_of_lt_succ ((Nat.log2_lt hpos.ne').mpr hlt)
    refine ⟨n * 2 ^ (52 - n.log2), n.log2, ?_, ?_, ?_, by omega⟩
    · rw [Nat.mul_assoc, ← Nat.pow_add, Nat.sub_add_cancel hk]
    · calc 2 ^ 52
          = 2 ^ n.log2 * 2 ^ (52 - n.log2) := by rw [← Nat.pow_add, Nat.add_sub_cancel' hk]
        _ ≤ n * 2 ^ (52 - n.log2) := Nat.mul_le_mul_right _ hlow
    · calc n * 2 ^ (52 - n.log2)
          < 2 ^ (n.log2 + 1) * 2 ^ (52 - n.log2) :=
            Nat.mul_lt_mul_of_pos_right hhigh (Nat.two_pow_pos _)
        _ = 2 ^ 53 := by rw [← Nat.pow_add, Nat.add_right_comm, Nat.add_sub_cancel' hk]
  · exact ⟨2 ^ 52, 53, by decide, Nat.le_refl _, by decide, Nat.le_refl _⟩

/-- Whole numbers up to `2 ^ 53` are rounded to themselves. -/
theorem whole_of_round {x : Float} {s : Sign} {n : Nat} (hpos : 0 < n) (hle : n ≤ 2 ^ 53)
    (hx : x.toModel = Float.Model.pack (UnpackedFloat.round .binary64 s (n * 2 ^ 52) (-52))) :
  Whole x (s.apply n)
  := by
  obtain ⟨m, k, heq, hm, hlt, hk⟩ := exists_mantissa hpos hle
  rw [heq, round_eq hm hlt (by omega)] at hx
  obtain ⟨hfinite, hquanta⟩ := signedQuanta_of_pack hm hlt (by omega) (by omega) hx
  obtain ⟨j, hj⟩ : ∃ j, 52 + j = 1074 := ⟨1022, rfl⟩
  have hshift : (-52 + (k : Int) + 1074).toNat = k + j := by omega
  have hunit : m * 2 ^ (k + j) = n * unit := by
    rw [Nat.pow_add, ← Nat.mul_assoc, ← heq, Nat.mul_assoc, unit_eq hj, Nat.pow_add]
  refine ⟨hfinite, ?_⟩
  rw [hquanta, hshift, ← apply_mul, ← Nat.cast_mul, ← hunit, Nat.cast_mul, Nat.cast_pow,
    Nat.cast_ofNat]

theorem whole_of_normalize {x : Float} {z : Int} (hle : z.natAbs ≤ 2 ^ 53)
    (hx : x.toModel =
      Float.Model.pack (UnpackedFloat.normalize .binary64 (z * 2 ^ 52) (-52) .positive)) :
  Whole x z
  := by
  rw [UnpackedFloat.normalize] at hx
  rcases lt_trichotomy z 0 with hz | rfl | hz
  · have hn : (-(z * 2 ^ 52)).toNat = z.natAbs * 2 ^ 52 := by omega
    rw [compare_lt_iff_lt.mpr (by omega), hn] at hx
    have hneg : Sign.negative.apply z.natAbs = z := by
      change -(z.natAbs : Int) = z
      omega
    rw [← hneg]
    apply whole_of_round (by omega) hle hx
  · obtain ⟨x⟩ := x
    cases hx
    exact ⟨rfl, (Int.zero_mul _).symm⟩
  · have hn : (z * 2 ^ 52).toNat = z.natAbs * 2 ^ 52 := by omega
    rw [compare_gt_iff_gt.mpr (by omega), hn] at hx
    have hpos : Sign.positive.apply z.natAbs = z := by
      change (z.natAbs : Int) = z
      omega
    rw [← hpos]
    apply whole_of_round (by omega) hle hx

/-- The last bit of a whole number other than zero stands for no less than that of one. -/
theorem exponent_of_whole {m n : Nat} {e : Int} (hc : Canonical m e) (hpos : 0 < n)
    (h : m * 2 ^ (e + 1074).toNat = n * unit) :
  -52 ≤ e ∧ m * 2 ^ (e + 52).toNat = n * 2 ^ 52
  := by
  obtain ⟨j, hj⟩ : ∃ j, 52 + j = 1074 := ⟨1022, rfl⟩
  have hunit : unit = 2 ^ 52 * 2 ^ j := by
    rw [unit_eq hj, Nat.pow_add]
  have hle : -52 ≤ e := by
    apply Int.le_of_not_gt
    intro hgt
    have hk : (e + 1074).toNat + 1 ≤ j := by omega
    have hsmall : n * unit < 1 * unit := by
      calc n * unit
          = m * 2 ^ (e + 1074).toNat := h.symm
        _ < 2 ^ 53 * 2 ^ (e + 1074).toNat :=
          Nat.mul_lt_mul_of_pos_right hc.lt (Nat.two_pow_pos _)
        _ = 2 ^ 52 * 2 ^ ((e + 1074).toNat + 1) := by rw [Nat.pow_succ]; omega
        _ ≤ 2 ^ 52 * 2 ^ j := Nat.mul_le_mul_left _ (Nat.pow_le_pow_right (by decide) hk)
        _ = 1 * unit := by rw [hunit, Nat.one_mul]
    have hlt := Nat.lt_of_mul_lt_mul_right hsmall
    omega
  have hshift : (e + 1074).toNat = (e + 52).toNat + j := by omega
  rw [hshift, hunit, Nat.pow_add, ← Nat.mul_assoc, ← Nat.mul_assoc] at h
  exact ⟨hle, Nat.eq_of_mul_eq_mul_right (Nat.two_pow_pos j) h⟩

/-- A whole number has the sign and, in units of `2 ^ -52`, the mantissa of the double that stands
for it. -/
theorem Whole.aligned {x : Float} {z : Int} {m : Nat} {e : Int} (hx : Whole x z)
    (hc : Canonical m e) (hq : quanta (magnitude x) = m * 2 ^ (e + 1074).toNat) :
  -52 ≤ e ∧ m * 2 ^ (e + 52).toNat = z.natAbs * 2 ^ 52 ∧ z = (sign x).apply z.natAbs
  := by
  have hquanta := hx.signedQuanta_eq
  rw [signedQuanta, hq] at hquanta
  have habs : m * 2 ^ (e + 1074).toNat = z.natAbs * unit := by
    have h := congrArg Int.natAbs hquanta
    rw [Int.natAbs_mul, Int.natAbs_natCast, natAbs_apply] at h
    apply h
  have hsign : z = (sign x).apply z.natAbs := by
    apply Int.eq_of_mul_eq_mul_right (Int.ofNat_lt.mpr unit_pos).ne'
    rw [← hquanta, habs, Nat.cast_mul, apply_mul]
  have hpos : 0 < z.natAbs := by
    apply Nat.pos_of_ne_zero
    intro hzero
    have hlt := hc.quanta_pos
    rw [habs, hzero, Nat.zero_mul] at hlt
    apply Nat.lt_irrefl 0 hlt
  obtain ⟨he, hmul⟩ := exponent_of_whole hc hpos habs
  exact ⟨he, hmul, hsign⟩

/-- One is added without loss to whole numbers below `2 ^ 53`. -/
theorem Whole.add_one {x : Float} {z : Int} (hx : Whole x z) (hz : z.natAbs < 2 ^ 53) :
  Whole (x + 1.0) (z + 1)
  := by
  have hadd : (x + 1.0).toModel = Float.Model.pack (UnpackedFloat.add .binary64 x.toModel.unpack
      (.finite .positive (2 ^ 52) (-52) (by decide))) := rfl
  have hparts := unpacked x
  generalize x.toModel.unpack = u at hparts hadd
  cases hparts with
  | notANumber h | infinity h => cases hx.isFinite.symm.trans h
  | zero _ hzero =>
    have hunit : (unit : Int) ≠ 0 := (Int.ofNat_lt.mpr unit_pos).ne'
    have hquanta := hx.signedQuanta_eq
    rw [signedQuanta_of_magnitude_eq_zero hzero] at hquanta
    obtain rfl : z = 0 := (Int.mul_eq_zero.mp hquanta.symm).resolve_right hunit
    have hone : x + 1.0 = 1.0 := congrArg Float.ofModel hadd
    rw [hone]
    exact whole_one
  | @finite m e _ _ hc hq =>
    obtain ⟨he, hmul, hsign⟩ := hx.aligned hc hq
    have hmin : min e (-52) = -52 := by omega
    have hsub : e - -52 = e + 52 := by omega
    have hsum : (sign x).apply (z.natAbs * 2 ^ 52 : Nat) + Sign.positive.apply (2 ^ 52 : Nat) =
        (z + 1) * 2 ^ 52 := by
      rw [Nat.cast_mul, apply_mul, ← hsign, Int.add_mul]
      rfl
    apply whole_of_normalize (by omega)
    rw [hadd, UnpackedFloat.add, ← hsum]
    simp only [hmin, UnpackedFloat.decreaseExponent, Nat.shiftLeft_eq, hsub, hmul]
    rfl

/-! ### Counting on -/

/-- The double after adding one `k` times. -/
def counted (x : Float) (k : Nat) : Float :=
  (fun v => v + 1.0)^[k] x

theorem counted_succ (x : Float) (k : Nat) :
  counted x (k + 1) = counted x k + 1.0
  := Function.iterate_succ_apply' _ k x

/-- The second double is exceeded when one has been added to the first one `n` times, once at
least, and not before. -/
def Exceeds (x y : Float) (n : Nat) : Prop :=
  IsLeast {k | 1 ≤ k ∧ counted x k > y} n

theorem exceeds_succ_iff {x y : Float} {n : Nat} :
  Exceeds x y (n + 1) ↔ counted x (n + 1) > y ∧ ∀ k < n, ¬ counted x (k + 1) > y
  := by
  constructor
  · rintro ⟨⟨-, hgt⟩, hleast⟩
    refine ⟨hgt, ?_⟩
    intro k hk hgt'
    have hle := hleast ⟨Nat.succ_pos k, hgt'⟩
    omega
  · rintro ⟨hgt, hnot⟩
    refine ⟨⟨Nat.succ_pos n, hgt⟩, ?_⟩
    rintro (_ | k) ⟨hpos, hgt'⟩
    · cases hpos
    · apply Nat.succ_le_succ
      apply Nat.le_of_not_lt
      intro hk
      apply hnot k hk hgt'

/-- If it is never the first time that the second double is exceeded, it is not exceeded. -/
theorem not_gt_of_not_exceeds {x y : Float} (h : ∀ n, ¬ Exceeds x y n) (k : Nat) :
  ¬ counted x (k + 1) > y
  := by
  induction k using Nat.strong_induction_on with
  | _ k ih =>
    intro hgt
    apply h (k + 1)
    apply exceeds_succ_iff.mpr ⟨hgt, ih⟩

/-- What is not a number is never exceeded. -/
theorem not_exceeds_of_isNaN {x y : Float} (hy : y.isNaN = true) (n : Nat) :
  ¬ Exceeds x y n
  := by
  rintro ⟨⟨-, hgt⟩, -⟩
  apply not_gt_of_isNaN hy hgt

/-- Counting from a whole number comes to the whole numbers after it, as long as the ones before
are below `2 ^ 53`. -/
theorem Whole.counted {x : Float} {a : Int} {k : Nat} (hx : Whole x a)
    (hk : ∀ j < k, (a + j).natAbs < 2 ^ 53) :
  Whole (counted x k) (a + k)
  := by
  induction k with
  | zero =>
    rw [Nat.cast_zero, Int.add_zero]
    apply hx
  | succ k ih =>
    rw [counted_succ, Nat.cast_succ, ← Int.add_assoc]
    apply Whole.add_one
    · apply ih
      intro j hj
      apply hk j (Nat.lt_succ_of_lt hj)
    · apply hk k (Nat.lt_succ_self k)

/-- A whole number is exceeded by the one after it, or by the one after the first one if that is not
smaller. -/
theorem exceeds_of_whole {x y : Float} {a b : Int} (hx : Whole x a) (hy : Whole y b)
    (ha : a.natAbs < 2 ^ 53) (hb : b.natAbs < 2 ^ 53) :
  Exceeds x y (max 1 (b - a + 1)).toNat ∧
    Whole (counted x (max 1 (b - a + 1)).toNat) (max a b + 1)
  := by
  obtain ⟨n, hn⟩ : ∃ n, n = (max 1 (b - a + 1)).toNat := ⟨_, rfl⟩
  have hwhole : ∀ k ≤ n, Whole (counted x k) (a + k) := by
    intro k hk
    apply hx.counted
    intro j hj
    omega
  rw [← hn]
  constructor
  · constructor
    · refine ⟨by omega, ?_⟩
      apply (hy.lt_iff (hwhole n (Nat.le_refl n))).mpr
      omega
    · rintro k ⟨hpos, hgt⟩
      apply Nat.le_of_not_lt
      intro hlt
      have hless := (hy.lt_iff (hwhole k (Nat.le_of_lt hlt))).mp hgt
      omega
  · have hlast : max a b + 1 = a + n := by omega
    rw [hlast]
    apply hwhole n (Nat.le_refl n)

end LineBasic.Number
