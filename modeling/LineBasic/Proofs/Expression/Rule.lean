import LineBasic.Expression
import LineBasic.Proofs.Program

/-!
# The outcomes of rules

For each way to build a rule, a lemma says exactly when the rule yields a value: which
operands it has read, with which operators between them, and which token ends it.
-/

namespace LineBasic

/-- The token is an operator of a kind. -/
def Token.isOperator (kind : Delimiter → Bool) : Token → Bool
  | .delimiter d => kind d
  | _ => false

namespace Rule

open Program

variable {isOperator : Delimiter → Bool} {operand : Rule} {m : Memory} {nested : Rule}
  {n : Nat} {c c' : Cursor} {t f : Token} {x z : Float} {d : Delimiter}

theorem fail_ne_ok {α : Type} {kind : Fault.Kind} {detail : String} {a : α} :
  (Reading.fail kind detail : Reading α) c ≠ .ok a c'
  := by
  intro h
  cases h

/-- An operator yields a value when its right operand does and the two have one. -/
theorem apply_eq_ok_iff :
  operand.apply d x c = .ok (z, f) c'
    ↔ ∃ t c₁ y, Cursor.next c = .ok t c₁ ∧ operand t c₁ = .ok (y, f) c' ∧ d.value? x y = some z
  := by
  rw [apply, bind_eq_ok_iff]
  constructor
  · rintro ⟨t, c₁, ht, h⟩
    obtain ⟨⟨y, g⟩, c₂, hy, h⟩ := bind_eq_ok_iff.mp h
    use t, c₁, y, ht
    cases hv : d.value? x y with
    | some v =>
      simp only [hv] at h
      cases h
      exact ⟨hy, rfl⟩
    | none =>
      simp only [hv] at h
      apply absurd h fail_ne_ok
  · rintro ⟨t, c₁, y, ht, hy, hv⟩
    use t, c₁, ht
    rw [bind_of_ok hy]
    simp only [hv]
    rfl

/-- A chain goes on with an operator of its kind, and ends before any other token. -/
theorem chain_eq_ok_iff {a : Float × Token} :
  chain isOperator operand (n + 1) (x, t) c = .ok a c'
    ↔ (∃ d b c₁, t = .delimiter d ∧ isOperator d = true ∧ operand.apply d x c = .ok b c₁
        ∧ chain isOperator operand n b c₁ = .ok a c')
      ∨ (t.isOperator isOperator = false ∧ a = (x, t) ∧ c' = c)
  := by
  cases t with
  | delimiter d =>
    rw [chain]
    cases hd : isOperator d with
    | true =>
      simp only [if_true, bind_eq_ok_iff, Token.isOperator, hd, Bool.true_eq_false, false_and,
        or_false]
      constructor
      · rintro ⟨b, c₁, hb, h⟩
        exact ⟨d, b, c₁, rfl, hd, hb, h⟩
      · rintro ⟨_, b, c₁, ⟨⟩, _, hb, h⟩
        exact ⟨b, c₁, hb, h⟩
    | false =>
      simp only [Bool.false_eq_true, if_false, Token.isOperator, hd, true_and]
      constructor
      · intro h
        cases h
        exact .inr ⟨rfl, rfl⟩
      · rintro (⟨_, b, c₁, ⟨⟩, hd', _⟩ | ⟨rfl, rfl⟩)
        · rw [hd] at hd'
          contradiction
        · rfl
  | name | number | keyword | quoted | endOfLine | endOfProgram =>
    rw [chain]
    · constructor
      · intro h
        cases h
        exact .inr ⟨rfl, rfl, rfl⟩
      · rintro (⟨_, _, _, ⟨⟩, _⟩ | ⟨_, rfl, rfl⟩)
        rfl
    · intro d h
      cases h

/-- Operands grouped to the left are one operand and a chain. -/
theorem leftward_eq_ok_iff {a : Float × Token} :
  leftward isOperator operand n t c = .ok a c'
    ↔ ∃ b c₁, operand t c = .ok b c₁ ∧ chain isOperator operand n b c₁ = .ok a c'
  := bind_eq_ok_iff

/-- Operands grouped to the right are one operand alone, or one and an operator that is
applied to the others. -/
theorem rightward_eq_ok_iff {a : Float × Token} :
  rightward isOperator operand (n + 1) t c = .ok a c'
    ↔ ∃ x u c₁, operand t c = .ok (x, u) c₁
      ∧ ((∃ d, u = .delimiter d ∧ isOperator d = true
            ∧ (rightward isOperator operand n).apply d x c₁ = .ok a c')
          ∨ (u.isOperator isOperator = false ∧ a = (x, u) ∧ c' = c₁))
  := by
  rw [rightward, bind_eq_ok_iff]
  constructor
  · rintro ⟨⟨x, u⟩, c₁, hx, h⟩
    use x, u, c₁, hx
    cases u with
    | delimiter d =>
      cases hd : isOperator d with
      | true =>
        simp only [hd, if_true] at h
        exact .inl ⟨d, rfl, hd, h⟩
      | false =>
        simp only [hd, Bool.false_eq_true, if_false] at h
        cases h
        exact .inr ⟨hd, rfl, rfl⟩
    | name | number | keyword | quoted | endOfLine | endOfProgram =>
      cases h
      exact .inr ⟨rfl, rfl, rfl⟩
  · rintro ⟨x, u, c₁, hx, ⟨d, rfl, hd, h⟩ | ⟨hu, rfl, rfl⟩⟩
    · use (x, .delimiter d), c₁, hx
      simpa only [hd, if_true] using h
    · use (x, u), c', hx
      cases u with
      | delimiter d =>
        rw [Token.isOperator] at hu
        simp only [hu, Bool.false_eq_true, if_false]
        rfl
      | name | number | keyword | quoted | endOfLine | endOfProgram => rfl

/-- The atoms are the numbers that have a value and the names that stand for a slot. -/
theorem atom_eq_ok_iff :
  atom m t c = .ok (x, f) c'
    ↔ Cursor.next c = .ok f c'
      ∧ ((∃ s, t = .number s ∧ Number.ofText? s = some x)
          ∨ (∃ s i, t = .name s ∧ Slot.ofName? s = some i ∧ x = m.fetch i))
  := by
  cases t with
  | number s =>
    rw [atom]
    cases hs : Number.ofText? s with
    | none =>
      simp only [fail_ne_ok, false_iff]
      rintro ⟨-, ⟨_, ⟨⟩, h⟩ | ⟨_, _, ⟨⟩, -⟩⟩
      rw [hs] at h
      contradiction
    | some y =>
      simp only [bind_eq_ok_iff]
      constructor
      · rintro ⟨g, c₁, hg, h⟩
        cases h
        exact ⟨hg, .inl ⟨s, rfl, hs⟩⟩
      · rintro ⟨hf, ⟨_, ⟨⟩, h⟩ | ⟨_, _, ⟨⟩, -⟩⟩
        rw [hs] at h
        cases h
        exact ⟨f, c', hf, rfl⟩
  | name s =>
    rw [atom]
    cases hs : Slot.ofName? s with
    | none =>
      simp only [fail_ne_ok, false_iff]
      rintro ⟨-, ⟨_, ⟨⟩, -⟩ | ⟨_, _, ⟨⟩, h, -⟩⟩
      rw [hs] at h
      contradiction
    | some i =>
      simp only [bind_eq_ok_iff]
      constructor
      · rintro ⟨g, c₁, hg, h⟩
        cases h
        exact ⟨hg, .inr ⟨s, i, rfl, hs, rfl⟩⟩
      · rintro ⟨hf, ⟨_, ⟨⟩, -⟩ | ⟨_, _, ⟨⟩, h, rfl⟩⟩
        rw [hs] at h
        cases h
        exact ⟨f, c', hf, rfl⟩
  | delimiter | keyword | quoted | endOfLine | endOfProgram =>
    simp only [atom, fail_ne_ok, false_iff]
    rintro ⟨-, ⟨_, ⟨⟩, -⟩ | ⟨_, _, ⟨⟩, -⟩⟩

/-- A factor is an atom, or nested between two parentheses. -/
theorem factor_eq_ok_iff :
  factor m nested t c = .ok (x, f) c'
    ↔ (t = .delimiter .openParen ∧ ∃ u c₁ c₂, Cursor.next c = .ok u c₁
        ∧ nested u c₁ = .ok (x, .delimiter .closeParen) c₂ ∧ Cursor.next c₂ = .ok f c')
      ∨ (t ≠ .delimiter .openParen ∧ atom m t c = .ok (x, f) c')
  := by
  by_cases ht : t = .delimiter .openParen
  · subst ht
    rw [factor, bind_eq_ok_iff]
    simp only [true_and, ne_eq, not_true_eq_false, false_and, or_false]
    constructor
    · rintro ⟨u, c₁, hu, h⟩
      obtain ⟨⟨y, g⟩, c₂, hy, h⟩ := bind_eq_ok_iff.mp h
      use u, c₁, c₂, hu
      by_cases hg : g = .delimiter .closeParen
      · simp only [hg, if_true] at h
        obtain ⟨g', c₃, hg', h⟩ := bind_eq_ok_iff.mp h
        cases h
        rw [hg] at hy
        exact ⟨hy, hg'⟩
      · simp only [hg, if_false] at h
        apply absurd h fail_ne_ok
    · rintro ⟨u, c₁, c₂, hu, hy, hf⟩
      use u, c₁, hu
      rw [bind_of_ok hy]
      simp only [if_true]
      rw [bind_of_ok hf]
      rfl
  · rw [factor]
    · simp [ht]
    · apply ht

/-- A factor may have one sign. -/
theorem signed_eq_ok_iff :
  signed m nested t c = .ok (x, f) c'
    ↔ (t = .delimiter .minus ∧ ∃ u c₁ y, Cursor.next c = .ok u c₁
        ∧ factor m nested u c₁ = .ok (y, f) c' ∧ x = -y)
      ∨ (t = .delimiter .plus ∧ ∃ u c₁, Cursor.next c = .ok u c₁
        ∧ factor m nested u c₁ = .ok (x, f) c')
      ∨ (t ≠ .delimiter .minus ∧ t ≠ .delimiter .plus ∧ factor m nested t c = .ok (x, f) c')
  := by
  by_cases hm : t = .delimiter .minus
  · subst hm
    rw [signed, bind_eq_ok_iff]
    simp only [true_and, ne_eq, not_true_eq_false, false_and, or_false, reduceCtorEq,
      Token.delimiter.injEq]
    constructor
    · rintro ⟨u, c₁, hu, h⟩
      obtain ⟨⟨y, g⟩, c₂, hy, h⟩ := bind_eq_ok_iff.mp h
      cases h
      exact ⟨u, c₁, y, hu, hy, rfl⟩
    · rintro ⟨u, c₁, y, hu, hy, rfl⟩
      use u, c₁, hu
      rw [bind_of_ok hy]
      rfl
  · by_cases hp : t = .delimiter .plus
    · subst hp
      rw [signed, bind_eq_ok_iff]
      simp
    · rw [signed]
      · simp [hm, hp]
      · apply hm
      · apply hp

end Rule

end LineBasic
