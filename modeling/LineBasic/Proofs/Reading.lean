import LineBasic.Proofs.Cursor.Advance
import LineBasic.Statement

/-!
# What all reading keeps

The parts of statements are read by nothing but reading tokens, giving them back and skipping
lines.  A relation between cursors that is kept by these three is therefore kept by every
part of a statement.
-/

namespace LineBasic

open Program

/-- A relation that is kept when tokens are read and given back and when lines are skipped. -/
structure Cursor.Kept (P : Cursor → Cursor → Prop) : Prop where
  next : Keeps P Cursor.next
  pushBack : ∀ c, P c c.pushBack
  skipLine : ∀ c, P c c.skipLine

/-- The cursors are in the same source. -/
def Cursor.SameSource (c c' : Cursor) : Prop :=
  c'.source = c.source

namespace Cursor

instance : Std.Refl SameSource where
  refl _ := rfl

instance : IsTrans Cursor SameSource where
  trans _ _ _ h h' := Eq.trans h' h

/-- Reading stays in a source. -/
theorem kept_sameSource :
  Kept SameSource where
  next c := (keeps_ahead_next c).source_eq
  pushBack _ := rfl
  skipLine _ := rfl

end Cursor

variable {P : Cursor → Cursor → Prop}

namespace Reading

theorem keeps_fail [Std.Refl P] {α : Type} {kind : Fault.Kind} {detail : String} :
  Keeps P (Reading.fail kind detail : Reading α)
  := by
  apply keeps_throw

theorem keeps_pushBack (h : Cursor.Kept P) :
  Keeps P pushBack
  := keeps_modify h.pushBack

theorem keeps_slotOf [Std.Refl P] (t : Token) :
  Keeps P (slotOf t)
  := by
  cases t with
  | name s => apply keeps_ofExcept
  | delimiter | number | keyword | quoted | endOfLine | endOfProgram => apply keeps_fail

end Reading

variable [Std.Refl P] [IsTrans Cursor P]

/-! ### Expressions -/

namespace Rule

open Reading

/-- A rule keeps a relation, whatever token it is given. -/
abbrev KeepsAll (P : Cursor → Cursor → Prop) (r : Rule) : Prop :=
  ∀ t, Keeps P (r t)

variable {operand nested : Rule} {m : Memory}

theorem keeps_apply (h : Keeps P Cursor.next) (hr : KeepsAll P operand) (d : Delimiter) (x : Float) :
  Keeps P (operand.apply d x)
  := by
  apply h.bind
  intro t
  apply (hr t).bind
  rintro ⟨y, u⟩
  cases hv : d.value? x y with
  | some z =>
    simp only [hv]
    apply keeps_pure
  | none =>
    simp only [hv]
    apply keeps_fail

theorem keeps_chain (h : Keeps P Cursor.next) (hr : KeepsAll P operand) (kind : Delimiter → Bool)
    (n : Nat) :
  ∀ a, Keeps P (chain kind operand n a)
  := by
  induction n with
  | zero =>
    intro a
    apply keeps_fail
  | succ n ih =>
    rintro ⟨x, t⟩
    cases t with
    | delimiter d =>
      rw [chain]
      split
      · apply (keeps_apply h hr d x).bind
        apply ih
      · apply keeps_pure
    | name | number | keyword | quoted | endOfLine | endOfProgram => apply keeps_pure

theorem keeps_leftward (h : Keeps P Cursor.next) (hr : KeepsAll P operand) (kind : Delimiter → Bool)
    (n : Nat) :
  KeepsAll P (leftward kind operand n)
  := by
  intro t
  apply (hr t).bind
  apply keeps_chain h hr

theorem keeps_rightward (h : Keeps P Cursor.next) (hr : KeepsAll P operand) (kind : Delimiter → Bool)
    (n : Nat) :
  KeepsAll P (rightward kind operand n)
  := by
  induction n with
  | zero =>
    intro t
    apply keeps_fail
  | succ n ih =>
    intro t
    apply (hr t).bind
    rintro ⟨x, u⟩
    cases u with
    | delimiter d =>
      simp only
      split
      · apply keeps_apply h ih
      · apply keeps_pure
    | name | number | keyword | quoted | endOfLine | endOfProgram => apply keeps_pure

theorem keeps_atom (h : Keeps P Cursor.next) :
  KeepsAll P (atom m)
  := by
  intro t
  cases t with
  | number s =>
    rw [atom]
    split
    · apply h.bind
      intro u
      apply keeps_pure
    · apply keeps_fail
  | name s =>
    rw [atom]
    split
    · apply h.bind
      intro u
      apply keeps_pure
    · apply keeps_fail
  | delimiter | keyword | quoted | endOfLine | endOfProgram => apply keeps_fail

theorem keeps_factor (h : Keeps P Cursor.next) (hr : KeepsAll P nested) :
  KeepsAll P (factor m nested)
  := by
  intro t
  by_cases ht : t = .delimiter .openParen
  · subst ht
    apply h.bind
    intro u
    apply (hr u).bind
    rintro ⟨x, v⟩
    simp only
    split
    · apply h.bind
      intro w
      apply keeps_pure
    · apply keeps_fail
  · rw [factor]
    · apply keeps_atom h
    · apply ht

theorem keeps_signed (h : Keeps P Cursor.next) (hr : KeepsAll P nested) :
  KeepsAll P (signed m nested)
  := by
  intro t
  rw [signed.eq_def]
  split
  · apply h.bind
    intro u
    apply (keeps_factor h hr u).bind
    intro a
    apply keeps_pure
  · apply h.bind
    apply keeps_factor h hr
  · apply keeps_factor h hr

theorem keeps_powers (h : Keeps P Cursor.next) (hr : KeepsAll P nested) (n : Nat) :
  KeepsAll P (powers m nested n)
  := keeps_rightward h (keeps_signed h hr) _ n

theorem keeps_products (h : Keeps P Cursor.next) (hr : KeepsAll P nested) (n : Nat) :
  KeepsAll P (products m nested n)
  := keeps_leftward h (keeps_powers h hr n) _ n

theorem keeps_sums (h : Keeps P Cursor.next) (hr : KeepsAll P nested) (n : Nat) :
  KeepsAll P (sums m nested n)
  := keeps_leftward h (keeps_products h hr n) _ n

theorem keeps_comparisons (h : Keeps P Cursor.next) (n : Nat) :
  KeepsAll P (comparisons m n)
  := by
  induction n with
  | zero =>
    intro t
    apply keeps_fail
  | succ n ih => apply keeps_rightward h (keeps_sums h ih _)

end Rule

/-! ### Parts of statements -/

namespace Reading

open Rule

variable {m : Memory}

theorem keeps_evaluate (h : Cursor.Kept P) :
  Keeps P (evaluate m)
  := by
  apply h.next.bind
  intro t
  split
  · apply keeps_fail
  · refine Keeps.bind keeps_get ?_
    intro c
    apply (keeps_comparisons h.next _ t).bind
    intro a
    apply keeps_pure

theorem keeps_expression (h : Cursor.Kept P) :
  Keeps P (expression m)
  := by
  apply (keeps_evaluate h).bind
  intro x
  apply (keeps_pushBack h).bind
  intro _
  apply keeps_pure

theorem keeps_expect (h : Cursor.Kept P) (t : Token) (kind : Fault.Kind) :
  Keeps P (expect t kind)
  := by
  apply h.next.bind
  intro u
  split
  · apply keeps_pure
  · apply keeps_fail

theorem keeps_assignment (h : Cursor.Kept P) :
  Keeps P (assignment m)
  := by
  apply h.next.bind
  intro t
  refine Keeps.bind (keeps_slotOf t) ?_
  intro i
  apply (keeps_expect h _ _).bind
  intro _
  apply (keeps_expression h).bind
  intro x
  apply keeps_pure

theorem keeps_target (h : Cursor.Kept P) :
  Keeps P (target m)
  := by
  apply (keeps_expect h _ _).bind
  intro _
  apply keeps_expression h

theorem keeps_destination (h : Cursor.Kept P) (labels : Labels) :
  Keeps P (destination labels)
  := by
  apply h.next.bind
  intro t
  cases t with
  | number s =>
    simp only
    split
    · apply keeps_pure
    · apply keeps_fail
  | delimiter | name | keyword | quoted | endOfLine | endOfProgram => apply keeps_fail

theorem keeps_condition (h : Cursor.Kept P) :
  Keeps P (condition m)
  := by
  apply (keeps_expression h).bind
  intro x
  split
  · apply keeps_modify h.skipLine
  · apply keeps_expect h

theorem keeps_loopName (h : Cursor.Kept P) :
  Keeps P loopName
  := by
  apply h.next.bind
  intro t
  cases t with
  | name s => apply keeps_pure
  | delimiter | number | keyword | quoted | endOfLine | endOfProgram => apply keeps_pushBack h

theorem keeps_request (h : Cursor.Kept P) :
  Keeps P request
  := by
  apply h.next.bind
  intro t
  cases t with
  | quoted s =>
    apply (keeps_expect h _ _).bind
    intro _
    apply h.next.bind
    intro u
    refine Keeps.bind (keeps_slotOf u) ?_
    intro i
    apply keeps_pure
  | delimiter | name | number | keyword | endOfLine | endOfProgram =>
    simp only
    refine Keeps.bind (keeps_slotOf _) ?_
    intro i
    apply keeps_pure

theorem keeps_item (h : Cursor.Kept P) (t : Token) :
  Keeps P (item m t)
  := by
  cases t with
  | quoted s => apply keeps_pure
  | delimiter | name | number | keyword | endOfLine | endOfProgram =>
    apply (keeps_pushBack h).bind
    intro _
    apply (keeps_expression h).bind
    intro x
    apply keeps_pure

theorem keeps_items (h : Cursor.Kept P) (n : Nat) :
  ∀ line separated, Keeps P (items m n line separated)
  := by
  induction n with
  | zero =>
    intro line separated
    apply keeps_fail
  | succ n ih =>
    intro line separated
    apply h.next.bind
    intro t
    split
    · apply keeps_pure
    · apply (keeps_item h t).bind
      intro s
      apply h.next.bind
      intro u
      split
      · apply ih
      · apply ih
      · apply keeps_pure
      · apply keeps_pure
      · apply keeps_fail

theorem keeps_printed (h : Cursor.Kept P) :
  Keeps P (printed m)
  := by
  refine Keeps.bind keeps_get ?_
  intro c
  apply keeps_items h

/-! ### Expressions -/

/-- The token after an expression is given back. -/
theorem expression_of_evaluate {c c' : Cursor} {x : Float} (h : evaluate m c = .ok x c') :
  expression m c = .ok x c'.pushBack
  := by
  rw [expression, bind_of_ok h]
  rfl

/-! ### Destinations -/

section Destination

variable {labels : Labels} {c c' : Cursor} {t : Token} {label : String} {a : Nat} {f : Fault}

/-- The number of a known label leads to the offset of this label. -/
theorem destination_of_get? (hnext : Cursor.next c = .ok (.number label) c')
    (hget : labels.get? label = some a) :
  destination labels c = .ok a c'
  := by
  rw [destination, bind_of_ok hnext]
  simp only [hget]
  rfl

/-- Every other number is an undefined label. -/
theorem destination_of_get?_none (hnext : Cursor.next c = .ok (.number label) c')
    (hget : labels.get? label = none) :
  destination labels c = .error (Fault.of .undefinedLabel label) c'
  := by
  rw [destination, bind_of_ok hnext]
  simp only [hget]
  rfl

/-- What is no number is an undefined label without a name. -/
theorem destination_of_next (hnext : Cursor.next c = .ok t c') (ht : ∀ label, t ≠ .number label) :
  destination labels c = .error (Fault.of .undefinedLabel) c'
  := by
  rw [destination, bind_of_ok hnext]
  cases t with
  | number label => exact absurd rfl (ht label)
  | delimiter | name | keyword | quoted | endOfLine | endOfProgram => rfl

theorem destination_of_error (hnext : Cursor.next c = .error f c') :
  destination labels c = .error f c'
  := by
  rw [destination, bind_of_error hnext]

/-- Destinations are offsets of labels. -/
theorem destination_eq_ok_iff :
  destination labels c = .ok a c' ↔
    ∃ label, Cursor.next c = .ok (.number label) c' ∧ labels.get? label = some a
  := by
  constructor
  · intro h
    obtain ⟨t, c₁, hnext, -⟩ := bind_eq_ok_iff.mp h
    cases t with
    | number label =>
      cases hget : labels.get? label with
      | some a' =>
        rw [destination_of_get? hnext hget] at h
        cases h
        exact ⟨label, hnext, hget⟩
      | none =>
        rw [destination_of_get?_none hnext hget] at h
        cases h
    | delimiter | name | keyword | quoted | endOfLine | endOfProgram =>
      rw [destination_of_next hnext fun _ => Token.noConfusion] at h
      cases h
  · rintro ⟨label, hnext, hget⟩
    apply destination_of_get? hnext hget

end Destination

/-! ### Names that may be left out -/

/-- The cursor after a token that is passed if it is a name, and is given back otherwise. -/
def afterName (t : Token) (c : Cursor) : Cursor :=
  match t with
  | .name _ => c
  | _ => c.pushBack

/-- Where a jump leads does not depend on the name before it. -/
theorem jump_afterName (t : Token) (c : Cursor) (n : Nat) :
  (afterName t c).jump n = c.jump n
  := by
  cases t with
  | delimiter | name | number | keyword | quoted | endOfLine | endOfProgram => rfl

/-- Any name is passed after `NEXT`, and nothing else is. -/
theorem loopName_of_next {c c' : Cursor} {t : Token} (h : Cursor.next c = .ok t c') :
  loopName c = .ok () (afterName t c')
  := by
  rw [loopName, bind_of_ok h]
  cases t with
  | delimiter | name | number | keyword | quoted | endOfLine | endOfProgram => rfl

theorem loopName_of_error {c c' : Cursor} {f : Fault} (h : Cursor.next c = .error f c') :
  loopName c = .error f c'
  := by
  rw [loopName, bind_of_error h]

/-! ### Assignments and requests for input -/

section Assignment

variable {c c' : Cursor} {t : Token} {i : Slot} {prompt : String}

/-- Slots are those of names. -/
theorem slotOf_eq_ok_iff :
  slotOf t c = .ok i c' ↔ ∃ name, t = .name name ∧ Slot.ofName? name = some i ∧ c = c'
  := by
  constructor
  · intro h
    cases t with
    | name name =>
      rw [slotOf, Slot.ofName] at h
      cases hslot : Slot.ofName? name with
      | some j =>
        rw [hslot] at h
        cases h
        exact ⟨name, rfl, hslot, rfl⟩
      | none =>
        rw [hslot] at h
        cases h
    | delimiter | number | keyword | quoted | endOfLine | endOfProgram => cases h
  · rintro ⟨name, rfl, hslot, rfl⟩
    rw [slotOf, Slot.ofName, hslot]
    rfl

/-- Nothing but the token that has to follow is passed. -/
theorem expect_eq_ok_iff {kind : Fault.Kind} :
  expect t kind c = .ok () c' ↔ Cursor.next c = .ok t c'
  := by
  constructor
  · intro h
    obtain ⟨u, c₁, hnext, h⟩ := bind_eq_ok_iff.mp h
    by_cases hu : u = t
    · rw [if_pos hu] at h
      cases h
      rw [hnext, hu]
    · rw [if_neg hu] at h
      cases h
  · intro h
    rw [expect, bind_of_ok h, if_pos rfl]
    rfl

/-- An assignment names a variable, and has an expression after an equal sign. -/
theorem assignment_eq_ok_iff {m : Memory} {x : Float} :
  assignment m c = .ok (i, x) c' ↔ ∃ name d,
    Cursor.Reads c [.name name, .delimiter .equal] d ∧ Slot.ofName? name = some i ∧
    expression m d = .ok x c'
  := by
  constructor
  · intro h
    obtain ⟨t, c₁, hname, h⟩ := bind_eq_ok_iff.mp h
    obtain ⟨j, c₂, hslot, h⟩ := bind_eq_ok_iff.mp h
    obtain ⟨_, d, hequal, h⟩ := bind_eq_ok_iff.mp h
    obtain ⟨y, c₃, hx, h⟩ := bind_eq_ok_iff.mp h
    cases h
    obtain ⟨name, rfl, hj, rfl⟩ := slotOf_eq_ok_iff.mp hslot
    refine ⟨name, d, ?_, hj, hx⟩
    apply Cursor.Reads.cons hname
    apply Cursor.reads_singleton_iff.mpr
    exact expect_eq_ok_iff.mp hequal
  · rintro ⟨name, d, hreads, hslot, hx⟩
    obtain ⟨c₁, hname, hequal⟩ := Cursor.reads_cons_iff.mp hreads
    have hexpect : expect (.delimiter .equal) .equalSignExpected c₁ = .ok () d :=
      expect_eq_ok_iff.mpr (Cursor.reads_singleton_iff.mp hequal)
    rw [assignment, bind_of_ok hname,
      bind_of_ok (slotOf_eq_ok_iff.mpr ⟨name, rfl, hslot, rfl⟩), bind_of_ok hexpect,
      bind_of_ok hx]
    rfl

/-- A request for input names a variable, after a quoted prompt and a comma if there is a prompt
of its own. -/
theorem request_eq_ok_iff :
  request c = .ok (prompt, i) c' ↔ ∃ d name, (c = d ∧ prompt = "? " ∨
    Cursor.Reads c [.quoted prompt, .delimiter .comma] d) ∧
    Cursor.next d = .ok (.name name) c' ∧ Slot.ofName? name = some i
  := by
  constructor
  · intro h
    obtain ⟨t, c₁, hnext, h⟩ := bind_eq_ok_iff.mp h
    cases t with
    | quoted s =>
      obtain ⟨_, c₂, hcomma, h⟩ := bind_eq_ok_iff.mp h
      obtain ⟨u, c₃, hname, h⟩ := bind_eq_ok_iff.mp h
      obtain ⟨j, c₄, hslot, h⟩ := bind_eq_ok_iff.mp h
      cases h
      obtain ⟨name, rfl, hj, rfl⟩ := slotOf_eq_ok_iff.mp hslot
      refine ⟨c₂, name, .inr ?_, hname, hj⟩
      apply Cursor.Reads.cons hnext
      apply Cursor.reads_singleton_iff.mpr
      exact expect_eq_ok_iff.mp hcomma
    | delimiter | name | number | keyword | endOfLine | endOfProgram =>
      simp only at h
      obtain ⟨j, c₄, hslot, h⟩ := bind_eq_ok_iff.mp h
      cases h
      obtain ⟨name, ht, hj, rfl⟩ := slotOf_eq_ok_iff.mp hslot
      rw [ht] at hnext
      exact ⟨c, name, .inl ⟨rfl, rfl⟩, hnext, hj⟩
  · rintro ⟨d, name, ⟨rfl, rfl⟩ | hreads, hname, hslot⟩
    · rw [request, bind_of_ok hname]
      simp only
      rw [bind_of_ok (slotOf_eq_ok_iff.mpr ⟨name, rfl, hslot, rfl⟩)]
      rfl
    · obtain ⟨c₁, hquoted, hcomma⟩ := Cursor.reads_cons_iff.mp hreads
      have hexpect : expect (.delimiter .comma) .badSyntax c₁ = .ok () d :=
        expect_eq_ok_iff.mpr (Cursor.reads_singleton_iff.mp hcomma)
      rw [request, bind_of_ok hquoted]
      simp only
      rw [bind_of_ok hexpect, bind_of_ok hname,
        bind_of_ok (slotOf_eq_ok_iff.mpr ⟨name, rfl, hslot, rfl⟩)]
      rfl

end Assignment

end Reading

end LineBasic
