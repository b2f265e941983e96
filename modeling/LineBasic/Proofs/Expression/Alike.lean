import LineBasic.Proofs.Cursor.Alike
import LineBasic.Expression

/-!
# Expressions in texts of the same sense

With the same limit, a rule for expressions does alike in two sources that make the same
sense.  Tokens matter to it in two ways only: which token it is, if it is no name, and which
slot a name is for.
-/

namespace LineBasic

open Program

/-! ### Tokens that stand for the same -/

namespace Token.SameSense

/-- Tokens that stand for the same are equal, but for names. -/
theorem eq_or_names {t t' : Token} (h : SameSense t t') :
  t = t' ∨ ∃ u u', t = .name u ∧ t' = .name u'
  := by
  cases t with
  | name u =>
    cases t' with
    | name u' => exact .inr ⟨u, u', rfl, rfl⟩
    | delimiter | number | keyword | quoted | endOfLine | endOfProgram => cases h
  | delimiter | number | keyword | quoted | endOfLine | endOfProgram =>
    cases t' with
    | name u' => cases h
    | delimiter | number | keyword | quoted | endOfLine | endOfProgram => exact .inl h

/-- What is no name is told from everything else. -/
theorem eq_iff {t t' u : Token} (h : SameSense t t') (hu : ∀ v, u ≠ .name v) :
  t = u ↔ t' = u
  := by
  rcases h.eq_or_names with rfl | ⟨v, v', rfl, rfl⟩
  · rfl
  · constructor
    · intro heq
      exact absurd heq.symm (hu v)
    · intro heq
      exact absurd heq.symm (hu v')

theorem isEnd_eq {t t' : Token} (h : SameSense t t') :
  t.isEnd = t'.isEnd
  := by
  rcases h.eq_or_names with rfl | ⟨v, v', rfl, rfl⟩
  · rfl
  · rfl

end Token.SameSense

/-! ### Expressions -/

variable {s s' : Source}

theorem Reading.runAlike_fail {α β : Type} {R : α → β → Prop} {kind : Fault.Kind}
    {detail : String} :
  RunAlike (Cursor.Alike s s') R (Reading.fail kind detail) (Reading.fail kind detail)
  := by
  apply runAlike_throw

namespace Rule

open Cursor (runAlike_next)
open Reading (runAlike_fail)

variable {operand nested : Rule} {m : Memory}

/-- The same number, and tokens after it that stand for the same. -/
structure SameValue (a a' : Float × Token) : Prop where
  value_eq : a.1 = a'.1
  token : Token.SameSense a.2 a'.2

/-- The rule does alike in both sources. -/
def RunsAlike (s s' : Source) (r : Rule) : Prop :=
  ∀ ⦃t t'⦄, Token.SameSense t t' → RunAlike (Cursor.Alike s s') SameValue (r t) (r t')

/-- A value that has been read is yielded with the token after it. -/
theorem runAlike_value (x : Float) :
  RunAlike (Cursor.Alike s s') SameValue (do return (x, ← Cursor.next))
    (do return (x, ← Cursor.next))
  := by
  apply runAlike_next.bind
  intro t t' ht
  apply runAlike_pure ⟨rfl, ht⟩

theorem runAlike_apply (h : RunsAlike s s' operand) (d : Delimiter) (x : Float) :
  RunAlike (Cursor.Alike s s') SameValue (operand.apply d x) (operand.apply d x)
  := by
  apply runAlike_next.bind
  intro t t' ht
  apply (h ht).bind
  rintro ⟨y, u⟩ ⟨y', u'⟩ ⟨hy, hu⟩
  cases hy
  cases hv : d.value? x y with
  | some z =>
    simp only [hv]
    apply runAlike_pure ⟨rfl, hu⟩
  | none =>
    simp only [hv]
    apply runAlike_fail

theorem runAlike_chain (h : RunsAlike s s' operand) (kind : Delimiter → Bool) (n : Nat) :
  ∀ a a', SameValue a a' →
    RunAlike (Cursor.Alike s s') SameValue (chain kind operand n a) (chain kind operand n a')
  := by
  induction n with
  | zero =>
    intro a a' ha
    apply runAlike_fail
  | succ n ih =>
    rintro ⟨x, t⟩ ⟨x', t'⟩ ⟨hx, ht⟩
    cases hx
    rcases ht.eq_or_names with rfl | ⟨u, u', rfl, rfl⟩
    · cases t with
      | delimiter d =>
        rw [chain]
        split
        · apply (runAlike_apply h d x).bind
          apply ih
        · apply runAlike_pure ⟨rfl, ht⟩
      | name | number | keyword | quoted | endOfLine | endOfProgram =>
        apply runAlike_pure ⟨rfl, ht⟩
    · apply runAlike_pure ⟨rfl, ht⟩

theorem runsAlike_leftward (h : RunsAlike s s' operand) (kind : Delimiter → Bool) (n : Nat) :
  RunsAlike s s' (leftward kind operand n)
  := by
  intro t t' ht
  apply (h ht).bind
  apply runAlike_chain h

theorem runsAlike_rightward (h : RunsAlike s s' operand) (kind : Delimiter → Bool) (n : Nat) :
  RunsAlike s s' (rightward kind operand n)
  := by
  induction n with
  | zero =>
    intro t t' ht
    apply runAlike_fail
  | succ n ih =>
    intro t t' ht
    apply (h ht).bind
    rintro ⟨x, u⟩ ⟨x', u'⟩ ⟨hx, hu⟩
    cases hx
    rcases hu.eq_or_names with rfl | ⟨v, v', rfl, rfl⟩
    · cases u with
      | delimiter d =>
        simp only
        split
        · apply runAlike_apply ih
        · apply runAlike_pure ⟨rfl, hu⟩
      | name | number | keyword | quoted | endOfLine | endOfProgram =>
        apply runAlike_pure ⟨rfl, hu⟩
    · apply runAlike_pure ⟨rfl, hu⟩

theorem runsAlike_atom :
  RunsAlike s s' (atom m)
  := by
  intro t t' ht
  rcases ht.eq_or_names with rfl | ⟨u, u', rfl, rfl⟩
  · cases t with
    | number v =>
      rw [atom]
      split
      · apply runAlike_value
      · apply runAlike_fail
    | name v =>
      rw [atom]
      split
      · apply runAlike_value
      · apply runAlike_fail
    | delimiter | keyword | quoted | endOfLine | endOfProgram => apply runAlike_fail
  · rw [atom, atom, Slot.ofName?_of_sense ht]
    split
    · apply runAlike_value
    · apply runAlike_fail

theorem runsAlike_factor (h : RunsAlike s s' nested) :
  RunsAlike s s' (factor m nested)
  := by
  intro t t' ht
  by_cases hopen : t = .delimiter .openParen
  · have hopen' := (ht.eq_iff fun _ => Token.noConfusion).mp hopen
    subst hopen hopen'
    apply runAlike_next.bind
    intro u u' hu
    apply (h hu).bind
    rintro ⟨x, v⟩ ⟨x', v'⟩ ⟨hx, hv⟩
    cases hx
    apply runAlike_ite (hv.eq_iff fun _ => Token.noConfusion)
    · apply runAlike_value
    · apply runAlike_fail
  · have hopen' : t' ≠ .delimiter .openParen := by
      intro heq
      apply hopen ((ht.eq_iff fun _ => Token.noConfusion).mpr heq)
    rw [factor, factor]
    · apply runsAlike_atom ht
    · apply hopen'
    · apply hopen

theorem runsAlike_signed (h : RunsAlike s s' nested) :
  RunsAlike s s' (signed m nested)
  := by
  have hfactor := runsAlike_factor (m := m) h
  intro t t' ht
  rcases ht.eq_or_names with rfl | ⟨u, u', rfl, rfl⟩
  · rw [signed.eq_def]
    split
    · apply runAlike_next.bind
      intro u u' hu
      apply (hfactor hu).bind
      rintro ⟨x, v⟩ ⟨x', v'⟩ ⟨hx, hv⟩
      cases hx
      apply runAlike_pure ⟨rfl, hv⟩
    · apply runAlike_next.bind
      intro u u' hu
      apply hfactor hu
    · apply hfactor ht
  · apply hfactor ht

theorem runsAlike_comparisons (n : Nat) :
  RunsAlike s s' (comparisons m n)
  := by
  induction n with
  | zero =>
    intro t t' ht
    apply runAlike_fail
  | succ n ih =>
    have hpowers : RunsAlike s s' (powers m (comparisons m n) (n + 1)) :=
      runsAlike_rightward (runsAlike_signed ih) _ _
    have hproducts : RunsAlike s s' (products m (comparisons m n) (n + 1)) :=
      runsAlike_leftward hpowers _ _
    have hsums : RunsAlike s s' (sums m (comparisons m n) (n + 1)) :=
      runsAlike_leftward hproducts _ _
    apply runsAlike_rightward hsums

end Rule

end LineBasic
