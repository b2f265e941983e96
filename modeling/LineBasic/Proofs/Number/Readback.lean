import LineBasic.Number.Numeral
import LineBasic.Proofs.Number.Nearest
import LineBasic.Proofs.Number.Power

/-!
# Reading printed numbers

The text of a decimal fraction is read as a numeral with the same digits, which stands for the same
magnitude.  Hence every double is read from its own text: the finite ones from their shortest
decimal fractions, and the others from their names.
-/

namespace LineBasic

namespace Decimal

variable {d : Decimal} {c : Char} {w n : Nat}

/-! ### Digits -/

/-- The last digits of a number stand for what remains of it. -/
theorem ofDigitChars_lastDigits (w n init : Nat) :
  Nat.ofDigitChars 10 (lastDigits w n) init = 10 ^ w * init + n % 10 ^ w
  := by
  induction w generalizing n with
  | zero => simp [lastDigits, Nat.mod_one]
  | succ w ih =>
    have hlt : n % 10 < 10 := Nat.mod_lt _ (by decide)
    rw [lastDigits, Nat.ofDigitChars_append, ih, Nat.ofDigitChars_cons_digitChar_of_lt_ten hlt,
      Nat.ofDigitChars_nil, Nat.pow_succ', Nat.mod_mul, Nat.mul_assoc]
    omega

theorem isDigit_of_mem_lastDigits (h : c ∈ lastDigits w n) :
  c.isDigit = true
  := by
  induction w generalizing n with
  | zero => contradiction
  | succ w ih =>
    rcases List.mem_append.mp h with h | h
    · apply ih h
    · rw [List.mem_singleton.mp h, Nat.isDigit_digitChar, decide_eq_true_eq]
      apply Nat.mod_lt _ (by decide)

theorem length_lastDigits (w n : Nat) :
  (lastDigits w n).length = w
  := by
  induction w generalizing n with
  | zero => rfl
  | succ w ih => rw [lastDigits, List.length_append, ih, List.length_singleton]

/-! ### Notation -/

/-- The numeral that is the notation of a decimal fraction. -/
def numeral (d : Decimal) : Numeral :=
  ⟨Nat.toDigits 10 (d.digits / 10 ^ d.places), lastDigits d.places d.digits, 0⟩

theorem isDigit_of_mem_whole (h : c ∈ d.numeral.whole) :
  c.isDigit = true
  := Nat.isDigit_of_mem_toDigits (by decide) (by decide) h

theorem isDigit_of_mem_fraction (h : c ∈ d.numeral.fraction) :
  c.isDigit = true
  := isDigit_of_mem_lastDigits h

/-- There is a point if there are places after it. -/
theorem text_eq (d : Decimal) :
  d.text = d.numeral.whole ++ if d.places = 0 then [] else '.' :: d.numeral.fraction
  := by
  rw [text]
  split
  · rw [List.append_nil]
    rfl
  · rfl

/-- The text starts with a digit. -/
theorem exists_text_eq_cons (d : Decimal) :
  ∃ c r, d.text = c :: r ∧ c.isDigit = true
  := by
  obtain ⟨c, r, hwhole⟩ := List.exists_cons_of_ne_nil (l := d.numeral.whole) Nat.toDigits_ne_nil
  have hc : c ∈ d.numeral.whole := by
    rw [hwhole]
    apply List.mem_cons_self
  rw [text_eq, hwhole]
  exact ⟨c, _, rfl, isDigit_of_mem_whole hc⟩

/-- The text has no characters but digits and a point. -/
theorem isDigit_or_eq_of_mem_text (h : c ∈ d.text) :
  c.isDigit = true ∨ c = '.'
  := by
  rw [text_eq] at h
  rcases List.mem_append.mp h with h | h
  · exact .inl (isDigit_of_mem_whole h)
  · split at h
    · contradiction
    · rcases List.mem_cons.mp h with h | h
      · exact .inr h
      · exact .inl (isDigit_of_mem_fraction h)

/-- A decimal fraction is read from its text as the numeral that is its notation. -/
theorem ofChars?_text (d : Decimal) :
  Numeral.ofChars? d.text = some d.numeral
  := by
  have hwhole : ∀ c ∈ d.numeral.whole, c.isDigit = true := fun c => isDigit_of_mem_whole
  have hfraction : ∀ c ∈ d.numeral.fraction, c.isDigit = true := fun c => isDigit_of_mem_fraction
  have hne : d.numeral.whole.isEmpty = false := List.isEmpty_eq_false_iff.mpr Nat.toDigits_ne_nil
  rw [Numeral.ofChars?, text_eq, List.takeWhile_append_of_pos hwhole,
    List.dropWhile_append_of_pos hwhole]
  split
  · next hplaces =>
    have hnumeral : d.numeral = ⟨d.numeral.whole, [], 0⟩ := by
      rw [numeral, hplaces]
      rfl
    rw [List.takeWhile_nil, List.append_nil, List.dropWhile_nil, Numeral.ofRest?, hne, hnumeral]
    · rfl
    · nofun
  · rw [List.takeWhile_cons_of_neg (by decide), List.dropWhile_cons_of_neg (by decide),
      List.append_nil, Numeral.ofRest?, hne, List.takeWhile_eq_self_iff.mpr hfraction,
      List.dropWhile_eq_nil_iff.mpr hfraction]
    rfl

/-- The notation of a decimal fraction stands for the same magnitude. -/
theorem nearest_numeral (d : Decimal) :
  d.numeral.nearest = d.nearest
  := by
  have hpos : 0 < 10 ^ d.places := Nat.pow_pos (by decide)
  have hdigits : Nat.ofDigitChars 10 (d.numeral.whole ++ d.numeral.fraction) 0 = d.digits := by
    rw [Nat.ofDigitChars_append, numeral, Nat.ofDigitChars_ten_toDigits, ofDigitChars_lastDigits,
      Nat.div_add_mod]
  have hlength : 0 < d.numeral.whole.length := Nat.length_toDigits_pos
  have hfraction : d.numeral.fraction.length = d.places := length_lastDigits _ _
  have hexponent : d.numeral.exponent = 0 := rfl
  rw [Numeral.nearest]
  simp only [hdigits, hfraction, hexponent]
  split
  · next h =>
    have hzero : d.digits = 0 := h.resolve_right (by omega)
    symm
    apply Number.nearest_of_quanta hpos (by decide)
    rw [hzero, Nat.zero_mul]
    symm
    apply Nat.zero_mul
  · have hlast : ¬ (309 : Int) ≤ 0 - d.places := by omega
    have hbefore : (0 - (d.places : Int)).toNat = 0 := by omega
    have hafter : (-(0 - (d.places : Int))).toNat = d.places := by omega
    rw [if_neg hlast, hbefore, hafter]
    show nearest ⟨d.digits * 1, d.places⟩ = d.nearest
    rw [Nat.mul_one]

end Decimal

namespace Number

variable {x : Float} {c : Char} {cs : List Char}

/-! ### Names and signs -/

theorem toLower_of_isDigit (hc : c.isDigit = true) :
  c.toLower = c
  := by
  grind [Char.toLower, Char.isDigit]

/-- A text that starts with a digit is the one of a numeral. -/
theorem magnitude?_of_isDigit (hc : c.isDigit = true) :
  magnitude? (c :: cs) = (Numeral.ofChars? (c :: cs)).map Numeral.nearest
  := by
  have hhead : ∀ a r, (c :: cs).map Char.toLower = a :: r → a.isDigit = true := by
    intro a r h
    rw [List.map_cons, toLower_of_isDigit hc, List.cons.injEq] at h
    rw [← h.1, hc]
  rw [magnitude?, if_neg, if_neg]
  · intro hname
    cases hhead _ _ hname
  · rintro (hname | hname)
    · cases hhead _ _ hname
    · cases hhead _ _ hname

/-- A decimal fraction is read from its text as the magnitude nearest to it. -/
theorem magnitude?_text (d : Decimal) :
  magnitude? d.text = some d.nearest
  := by
  have hnumeral := d.ofChars?_text
  obtain ⟨c, r, htext, hc⟩ := d.exists_text_eq_cons
  rw [htext] at hnumeral ⊢
  rw [magnitude?_of_isDigit hc, hnumeral, Option.map_some, d.nearest_numeral]

theorem ne_sign_of_isDigit (hc : c.isDigit = true) :
  c ≠ '+' ∧ c ≠ '-'
  := by
  constructor
  all_goals
    rintro rfl
    contradiction

/-- Without a sign in front, a text is the one of a double that is not negative. -/
theorem ofChars?_of_ne (hplus : c ≠ '+') (hminus : c ≠ '-') :
  ofChars? (c :: cs) = (magnitude? (c :: cs)).map (ofMagnitude false)
  := by
  rw [ofChars?]
  · rintro _ ⟨⟩
    contradiction
  · rintro _ ⟨⟩
    contradiction

/-- A decimal fraction is read from its text as the double nearest to it. -/
theorem ofChars?_text (d : Decimal) :
  ofChars? d.text = some (ofMagnitude false d.nearest)
  := by
  have hmagnitude := magnitude?_text d
  obtain ⟨c, r, htext, hc⟩ := d.exists_text_eq_cons
  obtain ⟨hplus, hminus⟩ := ne_sign_of_isDigit hc
  rw [htext] at hmagnitude ⊢
  rw [ofChars?_of_ne hplus hminus, hmagnitude, Option.map_some]

/-! ### Doubles from their sign and magnitude -/

/-- A double is the one of its sign and its magnitude. -/
theorem ofMagnitude_magnitude (x : Float) :
  ofMagnitude (isNegative x) (magnitude x) = x
  := by
  have hbits : (if isNegative x then 2 ^ 63 + magnitude x else magnitude x) = x.toBits.toNat := by
    have hlt : x.toBits.toNat < 2 ^ 64 := x.toBits.toNat_lt
    have hneg : isNegative x = true ↔ 2 ^ 63 ≤ x.toBits.toNat := decide_eq_true_iff
    have hmagnitude : magnitude x = x.toBits.toNat % 2 ^ 63 := rfl
    rw [hmagnitude]
    split
    · next h =>
      have hle := hneg.mp h
      omega
    · next h =>
      have hnle := mt hneg.mpr h
      omega
  have hpow : Nat.pow 2 63 = 2 ^ 63 := rfl
  rw [ofMagnitude, hpow, hbits, UInt64.ofNat_toNat, Float.ofBits_toBits]

/-- A negative number is negated to the double of its magnitude without a sign. -/
theorem neg_ofMagnitude (hnan : x.isNaN = false) (hneg : isNegative x = true) :
  -ofMagnitude false (magnitude x) = x
  := by
  have hsign : isNegative (-x) = false := by
    rw [isNegative_eq, sign_neg hnan, sign, if_pos hneg]
    rfl
  have hx := ofMagnitude_magnitude (-x)
  rw [hsign, magnitude_neg hnan] at hx
  rw [hx, Number.neg_neg]

/-- A double that is not finite is infinite, or not a number. -/
theorem parts_of_infinite (hx : isFinite x = false) (hnan : x.isNaN = false) :
  ∃ s, parts x = .infinity s
  := by
  have hunpacked : Unpacked x (parts x) := unpacked x
  have hne := (signed_of_isNaN hnan).ne_notANumber
  generalize parts x = u at hunpacked hne
  cases hunpacked with
  | notANumber => contradiction
  | infinity => exact ⟨_, rfl⟩
  | zero h | finite h => cases hx.symm.trans h

theorem magnitude_of_infinite (hx : isFinite x = false) (hnan : x.isNaN = false) :
  magnitude x = infinity
  := by
  obtain ⟨s, hs⟩ := parts_of_infinite hx hnan
  rw [← packed_parts x, hs]
  cases s with
  | negative | positive => rfl

/-! ### Doubles from their text -/

/-- The text of a finite number is its shortest decimal fraction, with a sign in front if it is
negative. -/
theorem chars_of_isFinite (hx : isFinite x = true) :
  chars x = if isNegative x then '-' :: (Decimal.shortest (magnitude x)).text
    else (Decimal.shortest (magnitude x)).text
  := by
  rw [chars, isNaN_of_isFinite hx, hx, if_neg Bool.false_ne_true, if_pos rfl]

/-- The text of a number is the one of its magnitude, with a sign in front if it is negative. -/
theorem exists_chars_eq (hnan : x.isNaN = false) :
  ∃ c cs, chars x = (if isNegative x then '-' :: c :: cs else c :: cs) ∧ c ≠ '+' ∧ c ≠ '-' ∧
    magnitude? (c :: cs) = some (magnitude x)
  := by
  cases hx : isFinite x with
  | true =>
    obtain ⟨c, cs, htext, hc⟩ := (Decimal.shortest (magnitude x)).exists_text_eq_cons
    obtain ⟨hplus, hminus⟩ := ne_sign_of_isDigit hc
    refine ⟨c, cs, ?_, hplus, hminus, ?_⟩
    · rw [chars_of_isFinite hx, htext]
    · rw [← htext, magnitude?_text, Decimal.nearest_shortest (of_decide_eq_true hx)]
  | false =>
    refine ⟨'i', ['n', 'f'], ?_, by decide, by decide, ?_⟩
    · rw [chars, hnan, hx, if_neg Bool.false_ne_true, if_neg Bool.false_ne_true]
      rfl
    · rw [magnitude_of_infinite hx hnan, magnitude?]
      exact if_pos (.inl rfl)

/-- Every double is read from its own text. -/
theorem ofChars?_chars (x : Float) :
  ofChars? (chars x) = some x
  := by
  cases hnan : x.isNaN with
  | true =>
    rw [Float.isNaN_eq_decide_eq_nan, decide_eq_true_eq] at hnan
    rw [hnan]
    rfl
  | false =>
    obtain ⟨c, cs, hchars, hplus, hminus, hmagnitude⟩ := exists_chars_eq hnan
    have hx := ofMagnitude_magnitude x
    rw [hchars]
    cases hneg : isNegative x with
    | true =>
      rw [hneg] at hx
      rw [if_pos rfl, ofChars?, hmagnitude, Option.map_some, hx]
    | false =>
      rw [hneg] at hx
      rw [if_neg Bool.false_ne_true, ofChars?_of_ne hplus hminus, hmagnitude, Option.map_some, hx]

end Number

end LineBasic
