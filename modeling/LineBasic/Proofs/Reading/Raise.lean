import LineBasic.Proofs.Reading

/-!
# The faults of reading

Every part of a statement ends in faults of its own kinds only.  A name that is read is one of a
variable, so that evaluation never comes upon a name without a slot.  Where the next token ends a
line or the program, and only there, evaluation misses an expression.
-/

namespace LineBasic

open Program

/-- The token is one of a variable if it is a name. -/
def Token.Named (t : Token) : Prop :=
  ∀ s, t = .name s → (Slot.ofName? s).isSome

/-- The kinds of fault in which an expression can end that has been begun. -/
def Rule.faults : List Fault.Kind :=
  [.badSyntax, .unbalancedParentheses, .divisionByZero, .missingClosingQuote]

namespace Reading

/-- The kinds of fault in which an expression can end. -/
def evaluationFaults : List Fault.Kind :=
  .noExpression :: Rule.faults

/-- The outcome is a fault of one of the kinds, or a value with a property. -/
def Raises {α : Type} (ks : List Fault.Kind) (Q : α → Prop) :
    EStateM.Result Fault Cursor α → Prop
  | .ok a _ => Q a
  | .error f _ => f.kind ∈ ks

section Raises

variable {α β : Type} {ks ks' : List Fault.Kind} {Q : α → Prop} {R : β → Prop} {r : Reading α}
  {k : α → Reading β} {x : EStateM.Result Fault Cursor α} {c : Cursor} {f : Fault}

theorem Raises.mono (h : Raises ks Q x) (hks : ks ⊆ ks') :
  Raises ks' Q x
  := by
  cases x with
  | ok a c => apply h
  | error f c => apply hks h

/-- What follows a value raises what it raises for values with the property. -/
theorem Raises.bind (hr : Raises ks Q (r c)) (hk : ∀ a c', Q a → Raises ks R (k a c')) :
  Raises ks R ((r >>= k) c)
  := by
  cases h : r c with
  | ok a c' =>
    rw [h] at hr
    rw [bind_of_ok h]
    apply hk a c' hr
  | error f c' =>
    rw [h] at hr
    rw [bind_of_error h]
    apply hr

theorem Raises.mem_of_error {c' : Cursor} (hr : Raises ks Q (r c)) (h : r c = .error f c') :
  f.kind ∈ ks
  := by
  rw [h] at hr
  apply hr

theorem kind_of_next {c' : Cursor} (h : Cursor.next c = .error f c') :
  f.kind = .missingClosingQuote
  := by
  obtain ⟨-, rfl, -⟩ := Cursor.next_eq_error_iff.mp h
  rfl

/-- What cannot be read is a quoted text that is not closed. -/
theorem raises_of_error {c' : Cursor} (h : Cursor.next c = .error f c')
    (hquote : .missingClosingQuote ∈ ks) :
  Raises ks Q (.error f c')
  := by
  rw [← kind_of_next h] at hquote
  apply hquote

/-- Tokens that are read are named. -/
theorem named_of_next {c' : Cursor} {t : Token} (h : Cursor.next c = .ok t c') :
  t.Named
  := by
  rintro s rfl
  apply Cursor.isSome_slot_of_next h

theorem raises_next (hquote : .missingClosingQuote ∈ ks) :
  Raises ks Token.Named (Cursor.next c)
  := by
  cases hnext : Cursor.next c with
  | ok t c' => apply named_of_next hnext
  | error f c' => apply raises_of_error hnext hquote

theorem raises_fail {kind : Fault.Kind} {detail : String} (h : kind ∈ ks) :
  Raises ks Q ((fail kind detail : Reading α) c)
  := h

end Raises

end Reading

/-! ### Expressions -/

namespace Rule

open Reading (Raises raises_fail raises_next)

variable {operand nested : Rule} {v : Memory}

/-- Where its first token is named, a rule raises the faults of rules only, and is followed by a
token that is named. -/
def Regular (r : Rule) : Prop :=
  ∀ t c, t.Named → Raises faults (fun a => a.2.Named) (r t c)

theorem raises_followed (x : Float) (c : Cursor) :
  Raises faults (fun a => a.2.Named) ((do return (x, ← Cursor.next) : Reading (Float × Token)) c)
  := by
  apply (raises_next (by decide)).bind
  intro t c' ht
  apply ht

theorem raises_apply (h : Regular operand) (d : Delimiter) (x : Float) (c : Cursor) :
  Raises faults (fun a => a.2.Named) (operand.apply d x c)
  := by
  apply (raises_next (by decide)).bind
  intro t c' ht
  apply (h t c' ht).bind
  rintro ⟨y, u⟩ c'' hu
  cases hz : d.value? x y with
  | some z =>
    simp only [hz]
    apply hu
  | none =>
    simp only [hz]
    apply raises_fail (by decide)

theorem raises_chain (h : Regular operand) (kind : Delimiter → Bool) (n : Nat) :
  ∀ (a : Float × Token) (c : Cursor), a.2.Named →
    Raises faults (fun b => b.2.Named) (chain kind operand n a c)
  := by
  induction n with
  | zero =>
    intro a c _
    apply raises_fail (by decide)
  | succ n ih =>
    rintro ⟨x, t⟩ c ht
    cases t with
    | delimiter d =>
      rw [chain]
      split
      · apply (raises_apply h d x c).bind
        intro b c' hb
        apply ih b c' hb
      · apply ht
    | name | number | keyword | quoted | endOfLine | endOfProgram => apply ht

theorem regular_leftward (h : Regular operand) (kind : Delimiter → Bool) (n : Nat) :
  Regular (leftward kind operand n)
  := by
  intro t c ht
  apply (h t c ht).bind
  intro a c' ha
  apply raises_chain h kind n a c' ha

theorem regular_rightward (h : Regular operand) (kind : Delimiter → Bool) (n : Nat) :
  Regular (rightward kind operand n)
  := by
  induction n with
  | zero =>
    intro t c _
    apply raises_fail (by decide)
  | succ n ih =>
    intro t c ht
    apply (h t c ht).bind
    rintro ⟨x, u⟩ c' hu
    cases u with
    | delimiter d =>
      simp only
      split
      · apply raises_apply ih
      · apply hu
    | name | number | keyword | quoted | endOfLine | endOfProgram => apply hu

/-- A name that is evaluated stands for a slot. -/
theorem regular_atom :
  Regular (atom v)
  := by
  intro t c ht
  cases t with
  | number s =>
    rw [atom]
    cases Number.ofText? s with
    | some x => apply raises_followed
    | none => apply raises_fail (by decide)
  | name s =>
    obtain ⟨i, hi⟩ := Option.isSome_iff_exists.mp (ht s rfl)
    rw [atom]
    simp only [hi]
    apply raises_followed
  | delimiter | keyword | quoted | endOfLine | endOfProgram => apply raises_fail (by decide)

theorem regular_factor (h : Regular nested) :
  Regular (factor v nested)
  := by
  intro t c ht
  by_cases hopen : t = .delimiter .openParen
  · subst hopen
    apply (raises_next (by decide)).bind
    intro u c' hu
    apply (h u c' hu).bind
    rintro ⟨x, w⟩ c'' _
    simp only
    split
    · apply raises_followed
    · apply raises_fail (by decide)
  · rw [factor]
    · apply regular_atom t c ht
    · apply hopen

theorem regular_signed (h : Regular nested) :
  Regular (signed v nested)
  := by
  intro t c ht
  rw [signed.eq_def]
  split
  · apply (raises_next (by decide)).bind
    intro u c' hu
    apply (regular_factor h u c' hu).bind
    intro a c'' ha
    apply ha
  · apply (raises_next (by decide)).bind
    intro u c' hu
    apply regular_factor h u c' hu
  · apply regular_factor h t c ht

theorem regular_comparisons (n : Nat) :
  Regular (comparisons v n)
  := by
  induction n with
  | zero =>
    intro t c _
    apply raises_fail (by decide)
  | succ n ih =>
    have hpowers : Regular (powers v (comparisons v n) (n + 1)) :=
      regular_rightward (regular_signed ih) _ _
    have hsums : Regular (sums v (comparisons v n) (n + 1)) :=
      regular_leftward (regular_leftward hpowers _ _) _ _
    apply regular_rightward hsums

end Rule

namespace Reading

variable {v : Memory} {c c' : Cursor} {t : Token} {ks : List Fault.Kind} {f : Fault}

theorem evaluate_of_isEnd (hnext : Cursor.next c = .ok t c') (ht : t.isEnd = true) :
  evaluate v c = .error (Fault.of .noExpression) c'
  := by
  rw [evaluate, bind_of_ok hnext, if_pos ht]
  rfl

/-- An expression that is begun does not miss an expression. -/
theorem raises_evaluate_of_next (hnext : Cursor.next c = .ok t c') (ht : t.isEnd = false) :
  Raises Rule.faults (fun _ => True) (evaluate v c)
  := by
  rw [evaluate, bind_of_ok hnext, if_neg (Bool.not_eq_true _ ▸ ht)]
  apply (Rule.regular_comparisons _ t c' (named_of_next hnext)).bind
  intro a c'' _
  trivial

theorem raises_evaluate :
  Raises evaluationFaults (fun _ => True) (evaluate v c)
  := by
  cases hnext : Cursor.next c with
  | error f c' =>
    rw [evaluate, bind_of_error hnext]
    apply raises_of_error hnext (by decide)
  | ok t c' =>
    cases ht : t.isEnd with
    | true =>
      rw [evaluate_of_isEnd hnext ht]
      apply List.mem_cons_self
    | false => apply (raises_evaluate_of_next hnext ht).mono (List.subset_cons_self _ _)

/-- Evaluation misses an expression where the next token ends a line or the program, and nowhere
else. -/
theorem evaluate_noExpression_iff :
  (∃ f c', evaluate v c = .error f c' ∧ f.kind = .noExpression) ↔
    ∃ t c', Cursor.next c = .ok t c' ∧ t.isEnd = true
  := by
  constructor
  · rintro ⟨f, c', heval, hkind⟩
    cases hnext : Cursor.next c with
    | error f' c'' =>
      rw [evaluate, bind_of_error hnext] at heval
      cases heval
      cases hkind.symm.trans (kind_of_next hnext)
    | ok t c'' =>
      refine ⟨t, c'', rfl, ?_⟩
      rw [← Bool.not_eq_false]
      intro ht
      have hmem := (raises_evaluate_of_next hnext ht).mem_of_error heval
      rw [hkind] at hmem
      revert hmem
      decide
  · rintro ⟨t, c', hnext, ht⟩
    exact ⟨_, c', evaluate_of_isEnd hnext ht, rfl⟩

/-- An expression raises what its evaluation raises. -/
theorem raises_expression_of_evaluate (h : Raises ks (fun _ => True) (evaluate v c)) :
  Raises ks (fun _ => True) (expression v c)
  := by
  apply h.bind
  intro x c' _
  trivial

theorem raises_expression :
  Raises evaluationFaults (fun _ => True) (expression v c)
  := raises_expression_of_evaluate raises_evaluate

/-! ### Parts of statements -/

theorem raises_expect {kind : Fault.Kind} (u : Token) (c : Cursor) (hkind : kind ∈ ks)
    (hquote : .missingClosingQuote ∈ ks) :
  Raises ks (fun _ => True) (expect u kind c)
  := by
  apply (raises_next hquote).bind
  intro t c' _
  split
  · trivial
  · apply raises_fail hkind

/-- A token that is named is no variable only if it is no name. -/
theorem raises_slotOf (ht : t.Named) (h : (∃ s, t = .name s) ∨ .notAVariable ∈ ks) :
  Raises ks (fun _ => True) (slotOf t c)
  := by
  cases t with
  | name s =>
    obtain ⟨i, hi⟩ := Option.isSome_iff_exists.mp (ht s rfl)
    rw [slotOf, Slot.ofName, hi]
    trivial
  | delimiter | number | keyword | quoted | endOfLine | endOfProgram =>
    apply raises_fail
    rcases h with ⟨s, hs⟩ | h
    · cases hs
    · apply h

/-- An assignment that starts with a name does not miss a variable. -/
theorem raises_assignment_of_next (hnext : Cursor.next c = .ok t c')
    (ht : (∃ s, t = .name s) ∨ .notAVariable ∈ ks)
    (hks : .equalSignExpected :: evaluationFaults ⊆ ks) :
  Raises ks (fun _ => True) (assignment v c)
  := by
  have hquote : .missingClosingQuote ∈ ks := hks (by decide)
  rw [assignment, bind_of_ok hnext]
  apply (raises_slotOf (named_of_next hnext) ht).bind
  intro i c₁ _
  apply (raises_expect _ c₁ (hks List.mem_cons_self) hquote).bind
  intro _ c₂ _
  apply (raises_expression.mono (List.subset_of_cons_subset hks)).bind
  intro x c₃ _
  trivial

theorem raises_assignment :
  Raises (.notAVariable :: .equalSignExpected :: evaluationFaults) (fun _ => True)
    (assignment v c)
  := by
  cases hnext : Cursor.next c with
  | ok t c' =>
    apply raises_assignment_of_next hnext (.inr List.mem_cons_self) (List.subset_cons_self _ _)
  | error f c' =>
    rw [assignment, bind_of_error hnext]
    apply raises_of_error hnext (by decide)

theorem raises_target :
  Raises (.toExpected :: evaluationFaults) (fun _ => True) (target v c)
  := by
  apply (raises_expect _ c List.mem_cons_self (by decide)).bind
  intro _ c' _
  apply raises_expression.mono (List.subset_cons_self _ _)

theorem raises_destination (labels : Labels) :
  Raises [.undefinedLabel, .missingClosingQuote] (fun _ => True) (destination labels c)
  := by
  apply (raises_next (by decide)).bind
  intro t c' _
  cases t with
  | number s =>
    simp only
    cases labels.get? s with
    | some a => trivial
    | none => apply raises_fail (by decide)
  | delimiter | name | keyword | quoted | endOfLine | endOfProgram => apply raises_fail (by decide)

theorem raises_condition :
  Raises (.thenExpected :: evaluationFaults) (fun _ => True) (condition v c)
  := by
  apply (raises_expression.mono (List.subset_cons_self _ _)).bind
  intro x c' _
  split
  · trivial
  · apply raises_expect _ c' List.mem_cons_self (by decide)

theorem raises_loopName :
  Raises [.missingClosingQuote] (fun _ => True) (loopName c)
  := by
  apply (raises_next (by decide)).bind
  intro t c' _
  cases t with
  | name | delimiter | number | keyword | quoted | endOfLine | endOfProgram => trivial

theorem raises_request :
  Raises [.badSyntax, .notAVariable, .missingClosingQuote] (fun _ => True) (request c)
  := by
  apply (raises_next (by decide)).bind
  intro t c' ht
  cases t with
  | quoted s =>
    apply (raises_expect _ c' (by decide) (by decide)).bind
    intro _ c₁ _
    apply (raises_next (by decide)).bind
    intro u c₂ hu
    apply (raises_slotOf hu (.inr (by decide))).bind
    intro i c₃ _
    trivial
  | delimiter | name | number | keyword | endOfLine | endOfProgram =>
    apply (raises_slotOf ht (.inr (by decide))).bind
    intro i c₁ _
    trivial

/-! ### Printing -/

/-- The first token of an item is given back before it is evaluated. -/
theorem raises_item (hnext : Cursor.next c = .ok t c') (ht : t.isEnd = false) :
  Raises Rule.faults (fun _ => True) (item v t c')
  := by
  have hevaluate : Raises Rule.faults (fun _ => True) (evaluate v c'.pushBack) :=
    raises_evaluate_of_next (Cursor.next_pushBack hnext) ht
  cases t with
  | quoted s => trivial
  | delimiter | name | number | keyword | endOfLine | endOfProgram =>
    have hgiven : pushBack c' = .ok () c'.pushBack := rfl
    rw [item]
    · rw [bind_of_ok hgiven]
      apply (raises_expression_of_evaluate hevaluate).bind
      intro x c₁ _
      trivial
    · exact fun _ => Token.noConfusion

theorem raises_items (n : Nat) :
  ∀ line separated (c : Cursor), Raises Rule.faults (fun _ => True) (items v n line separated c)
  := by
  induction n with
  | zero =>
    intro line separated c
    apply raises_fail (by decide)
  | succ n ih =>
    intro line separated c
    cases hnext : Cursor.next c with
    | error f c' =>
      rw [items, bind_of_error hnext]
      apply raises_of_error hnext (by decide)
    | ok t c' =>
      rw [items, bind_of_ok hnext]
      cases ht : t.isEnd with
      | true => trivial
      | false =>
        simp only [Bool.false_eq_true, if_false]
        apply (raises_item hnext ht).bind
        intro s c₁ _
        apply (raises_next (by decide)).bind
        intro u c₂ _
        split
        · apply ih
        · apply ih
        · trivial
        · trivial
        · apply raises_fail (by decide)

theorem raises_printed :
  Raises Rule.faults (fun _ => True) (printed v c)
  := by
  rw [printed, bind_get]
  apply raises_items

end Reading

end LineBasic
