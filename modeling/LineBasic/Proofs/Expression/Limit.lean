import LineBasic.Proofs.Reading

/-!
# Limits do not matter

Rules that come back to themselves are limited by the number of characters that are left.
Each time they come back they have read a token, so that more characters than that make no
difference: rules with any two limits agree as long as fewer characters are left.  What
carries this is that no rule accepts the end of the program, the only token that takes up
no characters.
-/

namespace LineBasic.Rule

open Program

variable {operand operand' nested nested' : Rule} {m : Memory}

/-- The rules do the same while fewer than `k` characters are left. -/
def AgreeBelow (k : Nat) (r r' : Rule) : Prop :=
  ∀ t (c : Cursor), c.remaining < k → r t c = r' t c

/-- The rule does not accept the end of the program. -/
def RefusesEnd (r : Rule) : Prop :=
  r .endOfProgram = Reading.fail .badSyntax

/-! ### The end of the program -/

theorem refusesEnd_leftward (h : RefusesEnd operand) (kind : Delimiter → Bool) (n : Nat) :
  RefusesEnd (leftward kind operand n)
  := by
  rw [RefusesEnd, leftward, h]
  rfl

theorem refusesEnd_rightward (h : RefusesEnd operand) (kind : Delimiter → Bool) (n : Nat) :
  RefusesEnd (rightward kind operand n)
  := by
  cases n with
  | zero => rfl
  | succ n =>
    rw [RefusesEnd, rightward, h]
    rfl

theorem refusesEnd_signed :
  RefusesEnd (signed m nested)
  := rfl

theorem refusesEnd_powers (n : Nat) :
  RefusesEnd (powers m nested n)
  := refusesEnd_rightward refusesEnd_signed _ n

theorem refusesEnd_products (n : Nat) :
  RefusesEnd (products m nested n)
  := refusesEnd_leftward (refusesEnd_powers n) _ n

theorem refusesEnd_sums (n : Nat) :
  RefusesEnd (sums m nested n)
  := refusesEnd_leftward (refusesEnd_products n) _ n

theorem refusesEnd_comparisons (n : Nat) :
  RefusesEnd (comparisons m n)
  := by
  cases n with
  | zero => rfl
  | succ n => apply refusesEnd_rightward (refusesEnd_sums _)

/-! ### Operators -/

/-- What is read after the next token needs to agree only where fewer characters are left. -/
theorem next_congr {α : Type} {k : Nat} (h : AgreeBelow k operand operand')
    (he : RefusesEnd operand) (he' : RefusesEnd operand') (f : Float × Token → Reading α)
    {c : Cursor} (hc : c.remaining < k + 1) :
  (do f (← operand (← Cursor.next))) c = (do f (← operand' (← Cursor.next))) c
  := by
  apply bind_congr_right
  intro t c₁ hnext
  apply bind_congr_left
  by_cases ht : t = .endOfProgram
  · subst ht
    rw [he, he']
  · apply h
    have hlt := Cursor.remaining_lt_of_next hnext ht
    omega

theorem apply_congr {k : Nat} (h : AgreeBelow k operand operand') (he : RefusesEnd operand)
    (he' : RefusesEnd operand') (d : Delimiter) (x : Float) {c : Cursor}
    (hc : c.remaining < k + 1) :
  operand.apply d x c = operand'.apply d x c
  := next_congr h he he' _ hc

/-- An operator and its right operand take up characters. -/
theorem remaining_lt_of_apply (he : RefusesEnd operand) (ha : KeepsAll Cursor.Ahead operand)
    {d : Delimiter} {x : Float} {a : Float × Token} {c c' : Cursor}
    (h : operand.apply d x c = .ok a c') :
  c'.remaining < c.remaining
  := by
  obtain ⟨t, c₁, hnext, h₁⟩ := bind_eq_ok_iff.mp h
  obtain ⟨⟨y, u⟩, c₂, hoperand, h₂⟩ := bind_eq_ok_iff.mp h₁
  have ht : t ≠ .endOfProgram := by
    rintro rfl
    rw [he] at hoperand
    cases hoperand
  have hlt := Cursor.remaining_lt_of_next hnext ht
  have hle := ((ha t).of_ok hoperand).remaining_le
  have hc : c' = c₂ := by
    cases hv : d.value? x y with
    | some z =>
      simp only [hv] at h₂
      cases h₂
      rfl
    | none =>
      simp only [hv] at h₂
      cases h₂
  subst hc
  omega

theorem chain_congr {k : Nat} (h : AgreeBelow k operand operand') (he : RefusesEnd operand)
    (he' : RefusesEnd operand') (ha : KeepsAll Cursor.Ahead operand) (kind : Delimiter → Bool)
    {n n' : Nat} (hn : n ≤ n') (hk : n ≤ k) :
  ∀ a (c : Cursor), c.remaining < n → chain kind operand n a c = chain kind operand' n' a c
  := by
  induction n generalizing n' with
  | zero =>
    intro a c hc
    contradiction
  | succ n ih =>
    obtain ⟨n', rfl⟩ := Nat.exists_eq_add_one_of_ne_zero (Nat.ne_zero_of_lt hn)
    rintro ⟨x, t⟩ c hc
    cases t with
    | delimiter d =>
      rw [chain, chain]
      cases hd : kind d with
      | false => rfl
      | true =>
        have happly : operand.apply d x c = operand'.apply d x c := by
          apply apply_congr h he he'
          omega
        calc (operand.apply d x >>= chain kind operand n) c
            = (operand.apply d x >>= chain kind operand' n') c := by
              apply bind_congr_right
              intro a c₁ hc₁
              have hlt := remaining_lt_of_apply he ha hc₁
              apply ih (Nat.le_of_succ_le_succ hn) (by omega)
              omega
          _ = (operand'.apply d x >>= chain kind operand' n') c := bind_congr_left happly _
    | name | number | keyword | quoted | endOfLine | endOfProgram => rfl

theorem leftward_congr {k : Nat} (h : AgreeBelow k operand operand') (he : RefusesEnd operand)
    (he' : RefusesEnd operand') (ha : KeepsAll Cursor.Ahead operand) (kind : Delimiter → Bool)
    {n n' : Nat} (hn : n ≤ n') (hk : n ≤ k) :
  AgreeBelow n (leftward kind operand n) (leftward kind operand' n')
  := by
  intro t c hc
  calc (operand t >>= chain kind operand n) c
      = (operand t >>= chain kind operand' n') c := by
        apply bind_congr_right
        intro a c₁ hc₁
        have hle := ((ha t).of_ok hc₁).remaining_le
        apply chain_congr h he he' ha kind hn hk
        omega
    _ = (operand' t >>= chain kind operand' n') c := bind_congr_left (h t c (by omega)) _

theorem rightward_congr {k : Nat} (h : AgreeBelow k operand operand') (he : RefusesEnd operand)
    (he' : RefusesEnd operand') (ha : KeepsAll Cursor.Ahead operand) (kind : Delimiter → Bool)
    {n n' : Nat} (hn : n ≤ n') (hk : n ≤ k) :
  AgreeBelow n (rightward kind operand n) (rightward kind operand' n')
  := by
  induction n generalizing n' with
  | zero =>
    intro t c hc
    contradiction
  | succ n ih =>
    obtain ⟨n', rfl⟩ := Nat.exists_eq_add_one_of_ne_zero (Nat.ne_zero_of_lt hn)
    have hrec := ih (Nat.le_of_succ_le_succ hn) (by omega)
    intro t c hc
    rw [rightward, rightward, bind_congr_left (h t c (by omega)) _]
    apply bind_congr_right
    rintro ⟨x, u⟩ c₁ hc₁
    cases u with
    | delimiter d =>
      simp only
      cases hd : kind d with
      | false => rfl
      | true =>
        simp only [if_true]
        apply apply_congr hrec (refusesEnd_rightward he kind n) (refusesEnd_rightward he' kind _)
        have hoperand := hc₁
        rw [← h t c (by omega)] at hoperand
        have hle := ((ha t).of_ok hoperand).remaining_le
        omega
    | name | number | keyword | quoted | endOfLine | endOfProgram => rfl

/-! ### Whole expressions -/

theorem factor_congr {k : Nat} (h : AgreeBelow k nested nested') (he : RefusesEnd nested)
    (he' : RefusesEnd nested') :
  AgreeBelow (k + 1) (factor m nested) (factor m nested')
  := by
  intro t c hc
  by_cases ht : t = .delimiter .openParen
  · subst ht
    apply next_congr h he he' _ hc
  · rw [factor, factor]
    · apply ht
    · apply ht

theorem signed_congr {k : Nat} (h : AgreeBelow k nested nested') (he : RefusesEnd nested)
    (he' : RefusesEnd nested') :
  AgreeBelow (k + 1) (signed m nested) (signed m nested')
  := by
  have hfactor := factor_congr (m := m) h he he'
  intro t c hc
  rw [signed.eq_def, signed.eq_def]
  split
  · apply bind_congr_right
    intro u c₁ hnext
    apply bind_congr_left
    apply hfactor
    have hle := (Cursor.keeps_ahead_next.of_ok hnext).remaining_le
    omega
  · apply bind_congr_right
    intro u c₁ hnext
    apply hfactor
    have hle := (Cursor.keeps_ahead_next.of_ok hnext).remaining_le
    omega
  · apply hfactor t c hc

theorem comparisons_congr {n n' : Nat} (hn : n ≤ n') :
  AgreeBelow n (comparisons m n) (comparisons m n')
  := by
  induction n generalizing n' with
  | zero =>
    intro t c hc
    contradiction
  | succ n ih =>
    obtain ⟨n', rfl⟩ := Nat.exists_eq_add_one_of_ne_zero (Nat.ne_zero_of_lt hn)
    have hnested := ih (Nat.le_of_succ_le_succ hn)
    have ha := keeps_comparisons (m := m) Cursor.keeps_ahead_next n
    have hsigned := signed_congr (m := m) hnested (refusesEnd_comparisons n)
      (refusesEnd_comparisons n')
    have hpowers : AgreeBelow (n + 1) (powers m (comparisons m n) (n + 1))
        (powers m (comparisons m n') (n' + 1)) := by
      apply rightward_congr hsigned refusesEnd_signed refusesEnd_signed _ _ hn (Nat.le_refl _)
      apply keeps_signed Cursor.keeps_ahead_next ha
    have hproducts : AgreeBelow (n + 1) (products m (comparisons m n) (n + 1))
        (products m (comparisons m n') (n' + 1)) := by
      apply leftward_congr hpowers (refusesEnd_powers _) (refusesEnd_powers _) _ _ hn
        (Nat.le_refl _)
      apply keeps_powers Cursor.keeps_ahead_next ha
    have hsums : AgreeBelow (n + 1) (sums m (comparisons m n) (n + 1))
        (sums m (comparisons m n') (n' + 1)) := by
      apply leftward_congr hproducts (refusesEnd_products _) (refusesEnd_products _) _ _ hn
        (Nat.le_refl _)
      apply keeps_products Cursor.keeps_ahead_next ha
    apply rightward_congr hsums (refusesEnd_sums _) (refusesEnd_sums _) _ _ hn (Nat.le_refl _)
    apply keeps_sums Cursor.keeps_ahead_next ha

/-- With more than the characters that are left, the limit does not matter. -/
theorem comparisons_of_remaining_lt {n n' : Nat} {c : Cursor} (hn : c.remaining < n)
    (hn' : c.remaining < n') (t : Token) :
  comparisons m n t c = comparisons m n' t c
  := by
  rcases Nat.le_total n n' with hle | hle
  · apply comparisons_congr hle t c hn
  · symm
    apply comparisons_congr hle t c hn'

end LineBasic.Rule
