import LineBasic.Machine.State
import Mathlib.Order.Defs.Unbundled
import Mathlib.Tactic.Use

/-!
# Programs that move a state

Reading moves a cursor and execution moves a machine.  Both are programs that end with a
value or with a fault, and leave a state in either case.  A program keeps a relation when the
state that it is given and the state that it leaves are related, however it ends.  Two
programs run alike when related states lead to the same fault or to related values, and to
related states again.
-/

namespace LineBasic.Program

variable {ε σ α β γ δ : Type}

/-- The state that an outcome leaves. -/
def left : EStateM.Result ε σ α → σ
  | .ok _ s => s
  | .error _ s => s

/-- The value of an outcome. -/
def value? : EStateM.Result ε σ α → Option α
  | .ok a _ => some a
  | .error _ _ => none

/-- The fault of an outcome. -/
def fault? : EStateM.Result ε σ α → Option ε
  | .ok _ _ => none
  | .error e _ => some e

theorem eq_ok_of_value? {x : EStateM.Result ε σ α} {a : α} (h : value? x = some a) :
  x = .ok a (left x)
  := by
  cases x with
  | ok b s =>
    cases h
    rfl
  | error e s => cases h

theorem eq_error_of_fault? {x : EStateM.Result ε σ α} {e : ε} (h : fault? x = some e) :
  x = .error e (left x)
  := by
  cases x with
  | ok a s => cases h
  | error e' s =>
    cases h
    rfl

/-- What follows a program that has ended with a value goes on with the value. -/
theorem bind_of_ok {r : EStateM ε σ α} {s s₁ : σ} {a : α} (h : r s = .ok a s₁)
    (k : α → EStateM ε σ β) :
  (r >>= k) s = k a s₁
  := by
  simp [Bind.bind, EStateM.bind, h]

/-- Nothing follows a program that has ended with a fault. -/
theorem bind_of_error {r : EStateM ε σ α} {s s₁ : σ} {e : ε} (h : r s = .error e s₁)
    (k : α → EStateM ε σ β) :
  (r >>= k) s = .error e s₁
  := by
  simp [Bind.bind, EStateM.bind, h]

/-- What is done first may be replaced by what does the same in the state at hand. -/
theorem bind_congr_left {r r' : EStateM ε σ α} {s : σ} (h : r s = r' s)
    (k : α → EStateM ε σ β) :
  (r >>= k) s = (r' >>= k) s
  := by
  simp [Bind.bind, EStateM.bind, h]

/-- What is done next may be replaced by what does the same in the states that are reached. -/
theorem bind_congr_right {r : EStateM ε σ α} {k k' : α → EStateM ε σ β} {s : σ}
    (h : ∀ a s₁, r s = .ok a s₁ → k a s₁ = k' a s₁) :
  (r >>= k) s = (r >>= k') s
  := by
  cases hr : r s with
  | ok a s₁ => rw [bind_of_ok hr, bind_of_ok hr, h a s₁ hr]
  | error e s₁ => rw [bind_of_error hr, bind_of_error hr]

/-- What follows a change of the state goes on from the changed state. -/
theorem bind_modify (f : σ → σ) (k : PUnit → EStateM ε σ β) (s : σ) :
  ((modify f : EStateM ε σ PUnit) >>= k) s = k ⟨⟩ (f s)
  := rfl

/-- What follows a look at the state goes on in the same state. -/
theorem bind_get (k : σ → EStateM ε σ β) (s : σ) :
  ((get : EStateM ε σ σ) >>= k) s = k s s
  := rfl

/-- One program after another ends with a value exactly when both do. -/
theorem bind_eq_ok_iff {r : EStateM ε σ α} {k : α → EStateM ε σ β} {s s₂ : σ} {b : β} :
  (r >>= k) s = .ok b s₂ ↔ ∃ a s₁, r s = .ok a s₁ ∧ k a s₁ = .ok b s₂
  := by
  constructor
  · intro h
    cases hr : r s with
    | ok a s₁ =>
      rw [bind_of_ok hr] at h
      use a, s₁
    | error e s₁ =>
      rw [bind_of_error hr] at h
      cases h
  · rintro ⟨a, s₁, hr, hk⟩
    rw [bind_of_ok hr, hk]

/-! ### Kept relations -/

/-- A program keeps a relation between the state before it and the state after it. -/
def Keeps (P : σ → σ → Prop) (r : EStateM ε σ α) : Prop :=
  ∀ s, P s (left (r s))

section Keeps

variable {P : σ → σ → Prop}

theorem Keeps.of_ok {r : EStateM ε σ α} (hr : Keeps P r) {s s' : σ} {a : α}
    (h : r s = .ok a s') :
  P s s'
  := by
  have hs := hr s
  rw [h] at hs
  apply hs

theorem Keeps.of_error {r : EStateM ε σ α} (hr : Keeps P r) {s s' : σ} {e : ε}
    (h : r s = .error e s') :
  P s s'
  := by
  have hs := hr s
  rw [h] at hs
  apply hs

theorem keeps_pure [Std.Refl P] (a : α) :
  Keeps P (pure a : EStateM ε σ α)
  := fun s => Std.Refl.refl s

theorem keeps_throw [Std.Refl P] (e : ε) :
  Keeps P (throw e : EStateM ε σ α)
  := fun s => Std.Refl.refl s

theorem keeps_get [Std.Refl P] :
  Keeps P (get : EStateM ε σ σ)
  := fun s => Std.Refl.refl s

theorem keeps_modify {f : σ → σ} (h : ∀ s, P s (f s)) :
  Keeps P (modify f : EStateM ε σ PUnit)
  := h

theorem keeps_ofExcept [Std.Refl P] (x : Except ε α) :
  Keeps P (ofExcept x : EStateM ε σ α)
  := by
  cases x with
  | ok a => apply keeps_pure
  | error e => apply keeps_throw

/-- What two programs keep, one after the other keeps. -/
theorem Keeps.bind [IsTrans σ P] {r : EStateM ε σ α} {k : α → EStateM ε σ β}
    (hr : Keeps P r) (hk : ∀ a, Keeps P (k a)) :
  Keeps P (r >>= k)
  := by
  intro s
  cases h : r s with
  | ok a s₁ =>
    rw [bind_of_ok h]
    apply IsTrans.trans _ _ _ (hr.of_ok h) (hk a s₁)
  | error e s₁ =>
    rw [bind_of_error h]
    apply hr.of_error h

end Keeps

/-! ### Programs that run alike -/

/-- Outcomes with related values or with the same fault, which leave related states. -/
inductive Matching (S : σ → σ → Prop) (R : α → β → Prop) :
    EStateM.Result ε σ α → EStateM.Result ε σ β → Prop
  | ok {a : α} {b : β} {s s' : σ} : R a b → S s s' → Matching S R (.ok a s) (.ok b s')
  | error {e : ε} {s s' : σ} : S s s' → Matching S R (.error e s) (.error e s')

/-- From related states, two programs come to matching outcomes. -/
def RunAlike (S : σ → σ → Prop) (R : α → β → Prop) (r : EStateM ε σ α) (r' : EStateM ε σ β) :
    Prop :=
  ∀ ⦃s s'⦄, S s s' → Matching S R (r s) (r' s')

section RunAlike

variable {S : σ → σ → Prop} {R : α → β → Prop}

theorem runAlike_pure {a : α} {b : β} (h : R a b) :
  RunAlike S R (pure a : EStateM ε σ α) (pure b)
  := fun _ _ hs => .ok h hs

theorem runAlike_throw (e : ε) :
  RunAlike S R (throw e : EStateM ε σ α) (throw e)
  := fun _ _ hs => .error hs

theorem runAlike_get :
  RunAlike S S (get : EStateM ε σ σ) get
  := fun _ _ hs => .ok hs hs

theorem runAlike_modify {f g : σ → σ} (h : ∀ s s', S s s' → S (f s) (g s')) :
  RunAlike S Eq (modify f : EStateM ε σ PUnit) (modify g)
  := fun s s' hs => .ok rfl (h s s' hs)

theorem runAlike_ofExcept (x : Except ε α) :
  RunAlike S Eq (ofExcept x : EStateM ε σ α) (ofExcept x)
  := by
  cases x with
  | ok a => apply runAlike_pure rfl
  | error e => apply runAlike_throw e

/-- Programs that branch on the same run alike if their branches do. -/
theorem runAlike_ite {p p' : Prop} [Decidable p] [Decidable p'] (hp : p ↔ p')
    {r q : EStateM ε σ α} {r' q' : EStateM ε σ β} (hr : RunAlike S R r r')
    (hq : RunAlike S R q q') :
  RunAlike S R (if p then r else q) (if p' then r' else q')
  := by
  by_cases h : p
  · rw [if_pos h, if_pos (hp.mp h)]
    apply hr
  · rw [if_neg h, if_neg fun h' => h (hp.mpr h')]
    apply hq

/-- Two programs, each after one of two that run alike, run alike if they do so for all
related values. -/
theorem RunAlike.bind {Q : γ → δ → Prop} {r : EStateM ε σ α} {r' : EStateM ε σ β}
    {k : α → EStateM ε σ γ} {k' : β → EStateM ε σ δ} (hr : RunAlike S R r r')
    (hk : ∀ a b, R a b → RunAlike S Q (k a) (k' b)) :
  RunAlike S Q (r >>= k) (r' >>= k')
  := by
  intro s s' hs
  have h := hr hs
  generalize hx : r s = x at h
  generalize hy : r' s' = y at h
  cases h with
  | ok hab hs₁ =>
    rw [bind_of_ok hx, bind_of_ok hy]
    apply hk _ _ hab hs₁
  | error hs₁ =>
    rw [bind_of_error hx, bind_of_error hy]
    apply Matching.error hs₁

end RunAlike

end LineBasic.Program
