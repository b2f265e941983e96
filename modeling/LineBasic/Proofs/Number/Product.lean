import LineBasic.Proofs.Number.Unpacked
import Mathlib

/-!
# Products of doubles

Doubles are multiplied by way of their parts, and the product is put together again.  A double is
put together from its parts, and negating it negates these.  Hence negating a factor negates the
product, and the sign of a product is the product of the signs, unless it is not a number.
-/

namespace LineBasic.Number

open Float.Model (Format UnpackedFloat)
open Float.Model.UnpackedFloat (Sign packComponents)

/-! ### Signs -/

theorem sign_neg_neg (s : Sign) :
  - -s = s
  := by
  cases s with
  | negative | positive => rfl

theorem sign_neg_mul (s t : Sign) :
  -s * t = -(s * t)
  := by
  cases s with
  | negative | positive =>
    cases t with
    | negative | positive => rfl

theorem isNegative_eq (x : Float) :
  isNegative x = (sign x == .negative)
  := by
  rw [sign]
  cases isNegative x with
  | true | false => rfl

/-! ### Putting doubles together -/

/-- The double that is put together from its parts. -/
def packed (u : UnpackedFloat) : Float :=
  .ofModel (.pack u)

/-- The parts of a double. -/
def parts (x : Float) : UnpackedFloat :=
  x.toModel.unpack

/-- A double is put together from its parts. -/
theorem packed_parts (x : Float) :
  packed (parts x) = x
  := by
  apply Float.toBits_inj.mp
  apply UInt64.toBitVec_inj.mp
  apply UnpackedFloat.pack_unpack_of_valid x.toModel.valid

/-- The parts have a sign, which is what they have unless they stand for no number. -/
inductive Signed (s : Sign) : UnpackedFloat → Prop
  | infinity : Signed s (.infinity s)
  | zero : Signed s (.zero s)
  | finite {m : Nat} {e : Int} {hm : 0 < m} : Signed s (.finite s m e hm)

variable {s t : Sign} {u v : UnpackedFloat} {x y : Float}

theorem exists_signed (h : u ≠ .notANumber) :
  ∃ s, Signed s u
  := by
  cases u with
  | notANumber => contradiction
  | infinity s => exact ⟨s, .infinity⟩
  | zero s => exact ⟨s, .zero⟩
  | finite s => exact ⟨s, .finite⟩

theorem Signed.ne_notANumber (h : Signed s u) :
  u ≠ .notANumber
  := by
  cases h with
  | infinity | zero | finite => nofun

/-- The fields of a word other than its sign do not depend on the sign, and are not those of what
is not a number. -/
theorem Signed.exists_fields (h : Signed s u) :
  ∃ e m, (e = -1#11 → m = 0#52) ∧ word (packed u) = packComponents .binary64 s e m ∧
    word (packed u.neg) = packComponents .binary64 (-s) e m
  := by
  cases h with
  | infinity => exact ⟨-1#11, 0#52, fun _ => rfl, rfl, rfl⟩
  | zero => exact ⟨0#11, 0#52, fun _ => rfl, rfl, rfl⟩
  | @finite m e hm =>
    change ∃ e' m', _ ∧ UnpackedFloat.pack .binary64 (.finite s m e hm) = _ ∧
      UnpackedFloat.pack .binary64 (.finite (-s) m e hm) = _
    simp only [UnpackedFloat.pack]
    split
    · exact ⟨-1#11, 0#52, fun _ => rfl, rfl, rfl⟩
    · next hsmall =>
      split
      · refine ⟨_, _, ?_, rfl, rfl⟩
        intro hones
        have hnat := congrArg BitVec.toNat hones
        rw [BitVec.toNat_ofNat] at hnat
        change _ % 2 ^ 11 = 2047 at hnat
        change ¬ 2 ^ 11 ≤ _ + 1 at hsmall
        omega
      · exact ⟨0#11, _, nofun, rfl, rfl⟩

/-- Fields are taken apart into the same parts under either sign. -/
theorem unpack_packComponents_neg (s : Sign) (e : BitVec 11) (m : BitVec 52) :
  UnpackedFloat.unpack .binary64 (packComponents .binary64 (-s) e m) =
    (UnpackedFloat.unpack .binary64 (packComponents .binary64 s e m)).neg
  := by
  simp only [UnpackedFloat.unpack, UnpackedFloat.unpackMantissa_packComponents,
    UnpackedFloat.unpackExponent_packComponents, UnpackedFloat.unpackSign_packComponents,
    Sign.ofBitVec_toBitVec]
  split
  · split
    · rfl
    · rfl
  · split
    · split
      · rfl
      · rfl
    · rfl

/-- What has been put together under the other sign is taken apart into the same parts. -/
theorem parts_packed_neg (u : UnpackedFloat) :
  parts (packed u.neg) = (parts (packed u)).neg
  := by
  by_cases hu : u = .notANumber
  · rw [hu]
    rfl
  · obtain ⟨s, hs⟩ := exists_signed hu
    obtain ⟨e, m, -, hword, hneg⟩ := hs.exists_fields
    change UnpackedFloat.unpack .binary64 (word (packed u.neg)) =
      (UnpackedFloat.unpack .binary64 (word (packed u))).neg
    rw [hword, hneg, unpack_packComponents_neg]

theorem parts_packed_ne (h : u ≠ .notANumber) :
  parts (packed u) ≠ .notANumber
  := by
  obtain ⟨s, hs⟩ := exists_signed h
  obtain ⟨e, m, hm, hword, -⟩ := hs.exists_fields
  change UnpackedFloat.unpack .binary64 (word (packed u)) ≠ _
  rw [hword]
  simp only [UnpackedFloat.unpack, UnpackedFloat.unpackMantissa_packComponents,
    UnpackedFloat.unpackExponent_packComponents]
  split
  · next hones =>
    rw [if_pos (hm hones)]
    nofun
  · split
    · split
      · nofun
      · nofun
    · nofun

theorem isNaN_iff :
  x.isNaN = true ↔ parts x = .notANumber
  := UnpackedFloat.isNaN_iff

/-- A double has the sign of its parts. -/
theorem sign_packed (h : Signed s u) :
  sign (packed u) = s
  := by
  obtain ⟨e, m, -, hword, -⟩ := h.exists_fields
  rw [← ofBitVec_unpackSign, hword, UnpackedFloat.unpackSign_packComponents,
    Sign.ofBitVec_toBitVec]

theorem signed_parts (h : parts x ≠ .notANumber) :
  Signed (sign x) (parts x)
  := by
  obtain ⟨s, hs⟩ := exists_signed h
  have hsign := sign_packed hs
  rw [packed_parts] at hsign
  rw [hsign]
  apply hs

/-! ### Negating -/

theorem neg_neg_parts (u : UnpackedFloat) :
  u.neg.neg = u
  := by
  cases u with
  | notANumber => rfl
  | infinity | zero | finite => rw [UnpackedFloat.neg, UnpackedFloat.neg, sign_neg_neg]

theorem neg_packed (u : UnpackedFloat) :
  -packed u = packed u.neg
  := by
  have hneg : -packed u = packed (parts (packed u)).neg := rfl
  rw [hneg, ← parts_packed_neg, packed_parts]

theorem parts_neg (x : Float) :
  parts (-x) = (parts x).neg
  := by
  rw [← packed_parts x, neg_packed, parts_packed_neg]

/-- Negating twice changes nothing. -/
protected theorem neg_neg (x : Float) :
  - -x = x
  := by
  rw [← packed_parts x, neg_packed, neg_packed, neg_neg_parts]

theorem Signed.neg (h : Signed s u) :
  Signed (-s) u.neg
  := by
  cases h with
  | infinity => exact .infinity
  | zero => exact .zero
  | finite => exact .finite

/-- A number other than what is not a number has the parts of a sign. -/
theorem signed_of_isNaN (h : x.isNaN = false) :
  Signed (sign x) (parts x)
  := by
  apply signed_parts
  rw [Ne, ← isNaN_iff, h]
  exact Bool.false_ne_true

/-- Negating a number turns its sign around. -/
theorem sign_neg (h : x.isNaN = false) :
  sign (-x) = -sign x
  := by
  have hsigned := (signed_of_isNaN h).neg
  have hneg := neg_packed (parts x)
  rw [packed_parts] at hneg
  rw [hneg]
  apply sign_packed hsigned

/-- Negating a number leaves its magnitude as it is. -/
theorem magnitude_neg (h : x.isNaN = false) :
  magnitude (-x) = magnitude x
  := by
  obtain ⟨e, m, -, hword, hneg⟩ := (signed_of_isNaN h).exists_fields
  rw [← neg_packed, packed_parts] at hneg
  rw [packed_parts] at hword
  have hmantissa : magnitude (-x) % 2 ^ 52 = magnitude x % 2 ^ 52 := by
    rw [← toNat_unpackMantissa, ← toNat_unpackMantissa, hword, hneg,
      UnpackedFloat.unpackMantissa_packComponents, UnpackedFloat.unpackMantissa_packComponents]
  have hexponent : magnitude (-x) / 2 ^ 52 = magnitude x / 2 ^ 52 := by
    rw [← toNat_unpackExponent, ← toNat_unpackExponent, hword, hneg,
      UnpackedFloat.unpackExponent_packComponents, UnpackedFloat.unpackExponent_packComponents]
  rw [← Nat.div_add_mod (magnitude (-x)) (2 ^ 52), hmantissa, hexponent, Nat.div_add_mod]

/-! ### Multiplying -/

/-- Doubles are multiplied by way of their parts. -/
protected theorem mul_eq (x y : Float) :
  x * y = packed (UnpackedFloat.mul .binary64 (parts x) (parts y))
  := rfl

theorem roundWithAccuracy_neg (s : Sign) (m : Nat) (e : Int) (a : UnpackedFloat.Accuracy) :
  UnpackedFloat.roundWithAccuracy .binary64 (-s) m e a =
    (UnpackedFloat.roundWithAccuracy .binary64 s m e a).neg
  := by
  simp only [UnpackedFloat.roundWithAccuracy]
  split
  · rfl
  · rfl

theorem signed_roundWithAccuracy (s : Sign) (m : Nat) (e : Int) (a : UnpackedFloat.Accuracy) :
  Signed s (UnpackedFloat.roundWithAccuracy .binary64 s m e a)
  := by
  simp only [UnpackedFloat.roundWithAccuracy]
  split
  · exact .zero
  · exact .finite

theorem mul_parts_neg (u v : UnpackedFloat) :
  UnpackedFloat.mul .binary64 u.neg v = (UnpackedFloat.mul .binary64 u v).neg
  := by
  cases u with
  | notANumber => rfl
  | infinity =>
    cases v with
    | notANumber | zero => rfl
    | infinity | finite =>
      simp only [UnpackedFloat.mul, UnpackedFloat.neg, sign_neg_mul]
  | zero =>
    cases v with
    | notANumber | infinity => rfl
    | zero | finite => simp only [UnpackedFloat.mul, UnpackedFloat.neg, sign_neg_mul]
  | finite =>
    cases v with
    | notANumber => rfl
    | infinity | zero => simp only [UnpackedFloat.mul, UnpackedFloat.neg, sign_neg_mul]
    | finite =>
      simp only [UnpackedFloat.mul, UnpackedFloat.neg, sign_neg_mul, roundWithAccuracy_neg]

/-- Negating a factor negates the product, also if it is zero or not a number. -/
protected theorem neg_mul (x y : Float) :
  -x * y = -(x * y)
  := by
  rw [Number.mul_eq, Number.mul_eq, parts_neg, mul_parts_neg, neg_packed]

/-- What is not a number stays so when it is multiplied. -/
theorem mul_of_isNaN (h : x.isNaN = true) (y : Float) :
  x * y = x
  := by
  have hx := isNaN_iff.mp h
  have hmul : UnpackedFloat.mul .binary64 .notANumber (parts y) = .notANumber := rfl
  rw [Number.mul_eq, hx, hmul, ← hx, packed_parts]

theorem mul_parts_notANumber (u : UnpackedFloat) :
  UnpackedFloat.mul .binary64 u .notANumber = .notANumber
  := by
  cases u with
  | notANumber | infinity | zero | finite => rfl

/-- The parts of a product have the sign of the factors, unless it is not a number. -/
theorem signed_mul_parts (hu : Signed s u) (hv : Signed t v)
    (h : UnpackedFloat.mul .binary64 u v ≠ .notANumber) :
  Signed (s * t) (UnpackedFloat.mul .binary64 u v)
  := by
  cases hu with
  | infinity =>
    cases hv with
    | infinity | finite => exact .infinity
    | zero => exact absurd rfl h
  | zero =>
    cases hv with
    | infinity => exact absurd rfl h
    | zero | finite => exact .zero
  | finite =>
    cases hv with
    | infinity => exact .infinity
    | zero => exact .zero
    | finite => apply signed_roundWithAccuracy

/-- The sign of a product that is a number is the product of the signs of its factors. -/
protected theorem sign_mul (h : (x * y).isNaN = false) :
  sign (x * y) = sign x * sign y
  := by
  have hmul : UnpackedFloat.mul .binary64 (parts x) (parts y) ≠ .notANumber := by
    intro hnan
    rw [Number.mul_eq, hnan] at h
    cases h
  have hx : parts x ≠ .notANumber := by
    intro hx
    rw [hx] at hmul
    contradiction
  have hy : parts y ≠ .notANumber := by
    intro hy
    rw [hy] at hmul
    apply hmul (mul_parts_notANumber _)
  rw [Number.mul_eq]
  apply sign_packed
  apply signed_mul_parts (signed_parts hx) (signed_parts hy) hmul

/-- The sign of a product that is a number is set when those of its factors differ. -/
theorem isNegative_mul (h : (x * y).isNaN = false) :
  isNegative (x * y) = (isNegative x ^^ isNegative y)
  := by
  rw [isNegative_eq, isNegative_eq, isNegative_eq, Number.sign_mul h]
  cases sign x with
  | negative | positive =>
    cases sign y with
    | negative | positive => rfl

end LineBasic.Number
