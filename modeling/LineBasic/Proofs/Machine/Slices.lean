import LineBasic.Machine.Run
import LineBasic.Proofs.Machine.Frame

/-!
# Slices of a run

A budget says after how many statements a machine is to report that it still runs.  Nothing
else depends on it: a run that is cut into slices goes through the same states as one that is
not, and what it reports differs in nothing but in how often it says that it runs.
-/

namespace LineBasic.Machine

open Program Execution

/-! ### Slices of one execution -/

/-- A report that the program runs comes from a machine that runs, and the statements that
are left over can be executed later. -/
theorem proceed_of_running {a : Nat} {m m₁ : Machine} (h : m.proceed a = (.running, m₁))
    (hphase : m.phase = .running) :
  m₁.phase = .running ∧ ∀ b, m₁.proceed b = m.proceed (a + b)
  := by
  induction a generalizing m with
  | zero =>
    cases h
    constructor
    · apply hphase
    · intro b
      rw [Nat.zero_add]
  | succ a ih =>
    rw [proceed] at h
    cases hstep : step m with
    | ok e? m' =>
      cases e? with
      | none =>
        rw [hstep] at h
        have hphase' : m'.phase = .running := (phase_of_step hstep).trans hphase
        obtain ⟨hrun, hb⟩ := ih h hphase'
        constructor
        · apply hrun
        · intro b
          rw [hb b, Nat.succ_add, proceed, hstep]
      | some e =>
        rw [hstep] at h
        cases h
        have hne := event_of_step hstep
        contradiction
    | error f m' =>
      rw [hstep] at h
      cases h

/-- Statements that are not reached are not executed. -/
theorem proceed_of_ne_running {a : Nat} {m m₁ : Machine} {e : Event}
    (h : m.proceed a = (e, m₁)) (he : e ≠ .running) (b : Nat) :
  m.proceed (a + b) = (e, m₁)
  := by
  induction a generalizing m with
  | zero =>
    cases h
    contradiction
  | succ a ih =>
    rw [proceed] at h
    rw [Nat.succ_add, proceed]
    cases hstep : step m with
    | ok e? m' =>
      cases e? with
      | none =>
        rw [hstep] at h
        apply ih h
      | some e' =>
        rw [hstep] at h
        apply h
    | error f m' =>
      rw [hstep] at h
      apply h

/-- The machine runs once it has been started. -/
theorem phase_of_start {m m' : Machine} (h : start m = .ok () m') :
  m'.phase = .running
  := by
  obtain ⟨_, m₁, -, h₁⟩ := bind_eq_ok_iff.mp h
  obtain ⟨t, m₂, -, h₂⟩ := bind_eq_ok_iff.mp h₁
  cases h₂
  rfl

/-- A machine that is about to start is started before it executes statements. -/
theorem execute_of_start_ok {m m₀ : Machine} (h : m.phase = .ready) (hstart : start m = .ok () m₀)
    (n : Nat) :
  m.execute n = m₀.proceed n
  := by
  rw [execute, h]
  simp only
  rw [hstart]

theorem execute_of_start_error {m m₀ : Machine} {f : Fault} (h : m.phase = .ready)
    (hstart : start m = .error f m₀) (n : Nat) :
  m.execute n = fail f m₀
  := by
  rw [execute, h]
  simp only
  rw [hstart]

/-- Whatever its budget, an execution executes statements from where the machine runs, or reports
something else at once. -/
theorem execute_cases (m : Machine) :
  (∃ m₀ : Machine, m₀.phase = .running ∧ ∀ n, m.execute n = m₀.proceed n) ∨
    ∃ e m₁, e ≠ Event.running ∧ ∀ n, m.execute n = (e, m₁)
  := by
  cases hphase : m.phase with
  | ready =>
    cases hstart : start m with
    | ok _ m₀ => exact .inl ⟨m₀, phase_of_start hstart, execute_of_start_ok hphase hstart⟩
    | error f m₀ => exact .inr ⟨_, _, Event.noConfusion, execute_of_start_error hphase hstart⟩
  | running => exact .inl ⟨m, hphase, execute_of_running hphase⟩
  | warned | awaiting | failing | stopped =>
    refine .inr ⟨_, _, ?_, fun n => by rw [execute, hphase]⟩
    apply Event.noConfusion

/-- An execution goes on where a shorter one has left off. -/
theorem execute_execute {a : Nat} {m m₁ : Machine} (h : m.execute a = (.running, m₁)) (b : Nat) :
  m₁.execute b = m.execute (a + b)
  := by
  rcases m.execute_cases with ⟨m₀, hphase, hproceed⟩ | ⟨e, m₂, he, hreport⟩
  · rw [hproceed] at h
    obtain ⟨hrun, hb⟩ := proceed_of_running h hphase
    rw [execute_of_running hrun, hproceed, hb]
  · rw [hreport] at h
    cases h
    contradiction

/-- An execution that has reported anything else reports the same when it may be longer. -/
theorem execute_of_ne_running {a : Nat} {m m₁ : Machine} {e : Event}
    (h : m.execute a = (e, m₁)) (he : e ≠ .running) (b : Nat) :
  m.execute (a + b) = (e, m₁)
  := by
  rcases m.execute_cases with ⟨m₀, -, hproceed⟩ | ⟨e', m₂, -, hreport⟩
  · rw [hproceed] at h ⊢
    apply proceed_of_ne_running h he
  · rw [hreport] at h ⊢
    apply h

/-! ### Drivers -/

/-- What a driver has for a request for input. -/
inductive Answer where
  | line (text : String)
  | endOfInput
  deriving DecidableEq, Repr

/-- Gives an answer. -/
def answer : Answer → Machine → Machine
  | .line text, m => m.enter text
  | .endOfInput, m => m.endOfInput

/-- The driver gives its next answer when it is asked for input, and keeps its answers
otherwise. -/
def reply : Event → List Answer → Machine → List Answer × Machine
  | .input _, a :: as, m => (as, m.answer a)
  | _, as, m => (as, m)

/-- What a driver is told that executes with one budget after the other and has a list of
answers. -/
def drive : (budgets : List Nat) → List Answer → Machine → List Event
  | [], _, _ => []
  | n :: budgets, as, m =>
    let (e, m') := m.execute n
    let (as', m'') := reply e as m'
    e :: drive budgets as' m''

/-- What a driver is told, apart from that the program runs. -/
def news (budgets : List Nat) (as : List Answer) (m : Machine) : List Event :=
  (m.drive budgets as).filter (· ≠ .running)

theorem news_cons_of_running {n : Nat} {m m₁ : Machine} (h : m.execute n = (.running, m₁))
    (budgets : List Nat) (as : List Answer) :
  m.news (n :: budgets) as = m₁.news budgets as
  := by
  rw [news, drive, h]
  apply List.filter_cons_of_neg
  decide

theorem news_cons_of_ne_running {n : Nat} {m m₁ : Machine} {e : Event}
    (h : m.execute n = (e, m₁)) (he : e ≠ .running) (budgets : List Nat) (as : List Answer) :
  m.news (n :: budgets) as = e :: (reply e as m₁).2.news budgets (reply e as m₁).1
  := by
  rw [news, drive, h]
  apply List.filter_cons_of_pos
  apply decide_eq_true he

/-- One list begins with the other. -/
def Comparable (es es' : List Event) : Prop :=
  es <+: es' ∨ es' <+: es

theorem Comparable.symm {es es' : List Event} (h : Comparable es es') :
  Comparable es' es
  := Or.symm h

theorem Comparable.cons {es es' : List Event} (h : Comparable es es') (e : Event) :
  Comparable (e :: es) (e :: es')
  := by
  apply h.imp
  · apply List.prefix_cons_inj e |>.mpr
  · apply List.prefix_cons_inj e |>.mpr

/-- The first slice of one driver is part of the first slice of another one.  If it ends with
news, then so does the other slice, and both drivers go on from the same machine; otherwise
the other driver has still to execute what is left of its slice. -/
theorem comparable_news_cons {n n' k : Nat} {budgets budgets' : List Nat} (hle : n ≤ n')
    (hk : budgets.length + budgets'.length < k)
    (ih : ∀ (ns ns' : List Nat) (as : List Answer) (m : Machine),
      ns.length + ns'.length ≤ k → Comparable (m.news ns as) (m.news ns' as))
    (as : List Answer) (m : Machine) :
  Comparable (m.news (n :: budgets) as) (m.news (n' :: budgets') as)
  := by
  obtain ⟨b, rfl⟩ := Nat.exists_eq_add_of_le hle
  generalize h : m.execute n = x
  obtain ⟨e, m₁⟩ := x
  by_cases he : e = .running
  · subst he
    have hrest : m.news ((n + b) :: budgets') as = m₁.news (b :: budgets') as := by
      rw [news, drive, ← execute_execute h b]
      rfl
    rw [news_cons_of_running h, hrest]
    apply ih
    rw [List.length_cons]
    omega
  · have h' := execute_of_ne_running h he b
    rw [news_cons_of_ne_running h he, news_cons_of_ne_running h' he]
    apply Comparable.cons
    apply ih
    omega

/-- Drivers with the same answers are told the same news, one of them perhaps more than the
other. -/
theorem comparable_news (k : Nat) :
  ∀ (ns ns' : List Nat) (as : List Answer) (m : Machine),
    ns.length + ns'.length ≤ k → Comparable (m.news ns as) (m.news ns' as)
  := by
  induction k with
  | zero =>
    intro ns ns' as m hk
    have hns : ns = [] := List.eq_nil_of_length_eq_zero (by omega)
    subst hns
    apply Or.inl
    apply List.nil_prefix
  | succ k ih =>
    intro ns ns' as m hk
    match ns, ns' with
    | [], _ =>
      apply Or.inl
      apply List.nil_prefix
    | _, [] =>
      apply Or.inr
      apply List.nil_prefix
    | n :: budgets, n' :: budgets' =>
      simp only [List.length_cons] at hk
      rcases Nat.le_total n n' with hle | hle
      · apply comparable_news_cons hle _ ih
        omega
      · apply Comparable.symm
        apply comparable_news_cons hle _ ih
        omega

/-- An execution that reports that the program runs can be gone on with, and comes to the
same event and the same machine as one with both budgets at once.  What drivers with the same
answers are told is the same, up to how far they have come, and up to how often they are told
that the program runs. -/
theorem slices_execute_alike :
  (∀ (m m₁ : Machine) (a b : Nat),
    m.execute a = (.running, m₁) → m₁.execute b = m.execute (a + b)) ∧
  ∀ (m : Machine) (as : List Answer) (ns ns' : List Nat),
    m.news ns as <+: m.news ns' as ∨ m.news ns' as <+: m.news ns as
  := by
  constructor
  · intro m m₁ a b h
    apply execute_execute h
  · intro m as ns ns'
    apply comparable_news (ns.length + ns'.length) ns ns' as m (Nat.le_refl _)

/-- One statement after the other against two at once, in a program that asks while it
counts. -/
theorem slices_execute_alike_in_loop :
  ∃ m₁, (ofString "FOR A = 1 TO 9 INPUT B NEXT").execute 1 = (.running, m₁) ∧
    m₁.execute 1 = (ofString "FOR A = 1 TO 9 INPUT B NEXT").execute 2 ∧
    (m₁.execute 1).1 = .input "? "
  := by
  have h : ((ofString "FOR A = 1 TO 9 INPUT B NEXT").execute 1).1 = .running := by
    decide +kernel
  use ((ofString "FOR A = 1 TO 9 INPUT B NEXT").execute 1).2
  have hrun : (ofString "FOR A = 1 TO 9 INPUT B NEXT").execute 1 = (.running, _) := Prod.ext h rfl
  refine ⟨hrun, slices_execute_alike.1 _ _ _ _ hrun, ?_⟩
  decide +kernel

end LineBasic.Machine
