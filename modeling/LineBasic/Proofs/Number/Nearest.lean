import LineBasic.Number.Shortest
import LineBasic.Proofs.Number.Whole

/-!
# The magnitude nearest to a number

A number that is a whole number of quanta which some magnitude stands for has this magnitude as its
nearest one, since nothing is rounded.  Hence the exact decimal fraction of a magnitude stands for
it, and so does the shortest one, which is taken from fractions that stand for it.
-/

namespace LineBasic

namespace Number

variable {b d m n : Nat}

/-- A whole number is not rounded. -/
theorem roundEven_mul (hd : 0 < d) :
  roundEven (m * d) d = m
  := by
  have hmod : 2 * (m * d % d) < d := by
    rw [Nat.mul_mod_left]
    apply hd
  rw [roundEven, if_pos (.inl hmod), Nat.mul_div_cancel m hd]

/-- Where the distance of the magnitudes has been doubled, the numbers of their quanta have as many
more binary digits. -/
theorem log2_quanta (b : Nat) :
  (quanta b).log2 - 52 = b / 2 ^ 52 - 1
  := by
  by_cases hlow : b / 2 ^ 52 = 0
  · have hlt : b < 2 ^ 52 := by omega
    rw [quanta_of_lt hlt, hlow, Nat.sub_eq_zero_of_le]
    by_cases hb : b = 0
    · rw [hb]
      decide
    · apply Nat.le_of_lt ((Nat.log2_lt hb).mpr hlt)
  · have hquanta := quanta_of_exponent hlow
    have hpos := Nat.two_pow_pos (b / 2 ^ 52 - 1)
    have hne : quanta b ≠ 0 := by
      rw [hquanta]
      apply Nat.mul_ne_zero (by omega) hpos.ne'
    have hlog : (quanta b).log2 = 52 + (b / 2 ^ 52 - 1) := by
      rw [Nat.log2_eq_iff hne, hquanta, Nat.add_right_comm, Nat.pow_add, Nat.pow_add]
      constructor
      · apply Nat.mul_le_mul_right
        omega
      · apply Nat.mul_lt_mul_of_pos_right _ hpos
        omega
    rw [hlog, Nat.add_sub_cancel_left]

/-- A magnitude stands for its distance from the last ones that are half as far apart, doubled as
often as the distance of the magnitudes has been. -/
theorem quanta_eq_mul_pow (b : Nat) :
  quanta b = (b - (b / 2 ^ 52 - 1) * 2 ^ 52) * 2 ^ (b / 2 ^ 52 - 1)
  := by
  by_cases hlow : b / 2 ^ 52 = 0
  · rw [quanta_of_lt (by omega), hlow]
    omega
  · have hsub : b - (b / 2 ^ 52 - 1) * 2 ^ 52 = 2 ^ 52 + b % 2 ^ 52 := by omega
    rw [quanta_of_exponent hlow, hsub]

/-- A number of quanta that a finite magnitude stands for is nearest to this magnitude. -/
theorem nearest_of_quanta (hd : 0 < d) (hb : b < infinity) (h : n * unit = quanta b * d) :
  nearest n d = b
  := by
  have hdiv : (n * unit / d).log2 - 52 = b / 2 ^ 52 - 1 := by
    rw [h, Nat.mul_div_cancel _ hd, log2_quanta]
  have hround : roundEven (n * unit) (d * 2 ^ (b / 2 ^ 52 - 1)) =
      b - (b / 2 ^ 52 - 1) * 2 ^ 52 := by
    rw [h, quanta_eq_mul_pow, Nat.mul_assoc, Nat.mul_comm _ d]
    apply roundEven_mul (Nat.mul_pos hd (Nat.two_pow_pos _))
  rw [nearest, hdiv]
  change min infinity ((b / 2 ^ 52 - 1) * 2 ^ 52 +
    roundEven (n * unit) (d * 2 ^ (b / 2 ^ 52 - 1))) = b
  rw [hround, Nat.add_sub_cancel' (by omega)]
  apply Nat.min_eq_right hb.le

end Number

namespace Decimal

open Number (infinity quanta)

variable {b zeros places : Nat} {d : Decimal}

theorem nearest_exact (hb : b < infinity) :
  (exact b).nearest = b
  := by
  -- The exponent is given a name so that its powers are not computed.
  obtain ⟨k, hk⟩ : ∃ k, k = 1074 := ⟨_, rfl⟩
  have hexact : exact b = ⟨quanta b * Nat.pow 5 k, k⟩ := by
    delta exact
    rw [← hk]
  rw [hexact]
  apply Number.nearest_of_quanta
  · apply Nat.pow_pos
    decide
  · apply hb
  · rw [Number.unit_eq hk, Nat.mul_assoc]
    congr 1
    symm
    apply Nat.mul_pow 5 2 k

/-- A point that is found on a grid stands for the magnitude. -/
theorem nearest_of_onGrid? (h : onGrid? zeros places b = some d) :
  d.nearest = b
  := by
  have hfound := List.find?_some h
  apply of_decide_eq_true hfound

/-- What is tried after a grid stands for the magnitude, hence what is found does. -/
theorem nearest_getD_onGrid? (zeros places : Nat) (h : d.nearest = b) :
  ((onGrid? zeros places b).getD d).nearest = b
  := by
  cases hgrid : onGrid? zeros places b with
  | none => apply h
  | some d' => apply nearest_of_onGrid? hgrid

theorem nearest_fromPlaces (hb : b < infinity) (n : Nat) :
  (fromPlaces b n).nearest = b
  := by
  induction n with
  | zero => apply nearest_exact hb
  | succ n ih => apply nearest_getD_onGrid? _ _ ih

theorem nearest_fromZeros (hb : b < infinity) (n : Nat) :
  (fromZeros b n).nearest = b
  := by
  induction n with
  | zero => apply nearest_getD_onGrid? _ _ (nearest_fromPlaces hb _)
  | succ n ih => apply nearest_getD_onGrid? _ _ ih

/-- The shortest decimal fraction of a magnitude stands for it. -/
theorem nearest_shortest (hb : b < infinity) :
  (shortest b).nearest = b
  := nearest_fromZeros hb _

end Decimal

end LineBasic
