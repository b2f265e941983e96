import LineBasic.Proofs.Expression.Evaluation
import LineBasic.Proofs.Expression.Limit

/-!
# Limits of statements and labels

Expressions, printed items and the lines that labels are looked for in are limited by the
number of characters that are left, as the rules of expressions are.  Any larger limit comes
to the same.
-/

namespace LineBasic

open Program

namespace Reading

variable {m : Memory}

/-! ### Expressions -/

/-- The evaluation of an expression whose parentheses and operators are limited by `n`. -/
def evaluateWithin (m : Memory) (n : Nat) : Reading Float := do
  let t ← Cursor.next
  if t.isEnd then
    fail .noExpression
  else
    return (← Rule.comparisons m n t).1

/-- No expression reaches a limit that is larger than the number of characters left. -/
theorem evaluate_eq_evaluateWithin {n : Nat} {c : Cursor} (h : c.remaining < n) :
  evaluate m c = evaluateWithin m n c
  := by
  apply bind_congr_right
  intro t c₁ hnext
  have hle := (Cursor.keeps_ahead_next.of_ok hnext).remaining_le
  split
  · rfl
  · have hlimit : Rule.comparisons m (c₁.remaining + 2) t c₁ = Rule.comparisons m n t c₁ := by
      apply Rule.comparisons_of_remaining_lt
      · omega
      · omega
    exact bind_congr_left hlimit _

/-- An expression takes up characters, though the token after it is given back. -/
theorem remaining_lt_of_expression {c c' : Cursor} {x : Float}
    (h : expression m c = .ok x c') :
  c'.remaining < c.remaining
  := by
  obtain ⟨y, c₁, heval, h₁⟩ := bind_eq_ok_iff.mp h
  obtain ⟨_, c₂, hback, h₂⟩ := bind_eq_ok_iff.mp h₁
  cases hback
  cases h₂
  obtain ⟨a, f, c₀, hread, hf, -⟩ := Expression.exists_tree_of_evaluate heval
  have hpos := List.length_pos_iff.mpr a.tokens_ne_nil
  have hle : a.tokens.length + c₀.remaining ≤ c.remaining := by
    apply hread.length_le
    intro hmem
    have hend := a.isEnd_of_mem_tokens hmem
    contradiction
  have hblanks := (Cursor.ahead_skipBlanks c₀).remaining_le
  rw [Cursor.pushBack_of_next hf]
  omega

/-! ### Printed items -/

/-- An item takes up characters. -/
theorem remaining_lt_of_item {t : Token} {c c₁ c' : Cursor} {s : String}
    (hnext : Cursor.next c = .ok t c₁) (ht : t ≠ .endOfProgram) (h : item m t c₁ = .ok s c') :
  c'.remaining < c.remaining
  := by
  cases t with
  | quoted u =>
    cases h
    apply Cursor.remaining_lt_of_next hnext ht
  | delimiter | name | number | keyword | endOfLine | endOfProgram =>
    obtain ⟨_, c₂, hback, h₂⟩ := bind_eq_ok_iff.mp h
    obtain ⟨x, c₃, hexpr, h₃⟩ := bind_eq_ok_iff.mp h₂
    cases hback
    cases h₃
    have hlt := remaining_lt_of_expression hexpr
    have hblanks := (Cursor.ahead_skipBlanks c).remaining_le
    rw [Cursor.pushBack_of_next hnext] at hlt
    omega

theorem items_congr {n n' : Nat} (hn : n ≤ n') :
  ∀ line separated (c : Cursor), c.remaining < n →
    items m n line separated c = items m n' line separated c
  := by
  induction n generalizing n' with
  | zero =>
    intro line separated c hc
    contradiction
  | succ n ih =>
    obtain ⟨n', rfl⟩ := Nat.exists_eq_add_one_of_ne_zero (Nat.ne_zero_of_lt hn)
    intro line separated c hc
    rw [items, items]
    apply bind_congr_right
    intro t c₁ hnext
    cases ht : t.isEnd with
    | true => rfl
    | false =>
      simp only [Bool.false_eq_true, if_false]
      apply bind_congr_right
      intro s c₂ hitem
      apply bind_congr_right
      intro u c₃ hu
      have hend : t ≠ .endOfProgram := by
        rintro rfl
        contradiction
      have hlt := remaining_lt_of_item hnext hend hitem
      have hle := (Cursor.keeps_ahead_next.of_ok hu).remaining_le
      have hrest := fun line separated =>
        ih (Nat.le_of_succ_le_succ hn) line separated c₃ (by omega)
      split
      · apply hrest
      · apply hrest
      · rfl
      · rfl
      · rfl

/-- No printed text reaches a limit that is larger than the number of characters left. -/
theorem printed_eq_items {n : Nat} {c : Cursor} (h : c.remaining < n) :
  printed m c = items m n "" false c
  := items_congr h "" false c (Nat.lt_succ_self _)

end Reading

namespace Labels

/-! ### Labels -/

theorem scan_congr {n n' : Nat} (hn : n ≤ n') :
  ∀ t (c : Cursor), c.remaining < n → scan n t c = scan n' t c
  := by
  induction n generalizing n' with
  | zero =>
    intro t c hc
    contradiction
  | succ n ih =>
    obtain ⟨n', rfl⟩ := Nat.exists_eq_add_one_of_ne_zero (Nat.ne_zero_of_lt hn)
    intro t c hc
    rw [scan_succ, scan_succ]
    cases hnext : Cursor.next c with
    | error f c₁ => rfl
    | ok u c₁ =>
      have hle := Nat.le_of_succ_le_succ hn
      have hskip := (Cursor.ahead_skipLine c₁).remaining_le
      have hlt : u ≠ .endOfProgram → c₁.remaining < n := by
        intro hu
        have hlt := Cursor.remaining_lt_of_next hnext hu
        omega
      cases u with
      | endOfProgram => rfl
      | endOfLine => apply ih hle t c₁ (hlt Token.noConfusion)
      | number label =>
        simp only
        split
        · rfl
        · apply ih hle
          have hlt := hlt Token.noConfusion
          omega
      | delimiter | name | keyword | quoted =>
        apply ih hle
        have hlt := hlt Token.noConfusion
        omega

/-- The labels of a source, looked for in up to `n` lines. -/
def buildWithin (n : Nat) : Reading Labels := fun c =>
  match scan n empty (c.jump 0) with
  | .ok t c' => .ok t (c'.jump 0)
  | .error f c' => .error f c'

/-- No source has more lines than it has characters, but for one. -/
theorem build_eq_buildWithin {n : Nat} {c : Cursor} (h : c.source.size < n) :
  build c = buildWithin n c
  := by
  have hscan : scan (c.source.size + 1) empty (c.jump 0) = scan n empty (c.jump 0) := by
    apply scan_congr h
    apply Nat.lt_succ_self
  calc build c
      = buildWithin (c.source.size + 1) c := rfl
    _ = buildWithin n c := by rw [buildWithin, buildWithin, hscan]

end Labels

end LineBasic
