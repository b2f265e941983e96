import LineBasic.Proofs.Machine.Restart

/-!
# Where machines come from

What a machine reports has come from one of its statements, unless nothing had to be executed for
it.  A machine that asks for a number has been left by the statement that asks, and one that has
still to report a fault by the end of input.
-/

namespace LineBasic

open Program
open Relation (ReflTransGen)

/-! ### Reports of statements -/

/-- What a statement reports, the phase in which it is executed, and the one that it leaves. -/
inductive Phase.Reports : Phase → Option Event → Phase → Prop
  | nothing {p : Phase} : Reports p none p
  | print {p : Phase} {text : String} : Reports p (some (.print text)) p
  | input {p : Phase} {prompt : String} {i : Slot} :
    Reports p (some (.input prompt)) (.awaiting prompt i)
  | stopped {p : Phase} : Reports p (some .stopped) .stopped

/-- The phase neither asks for a number nor has a fault to report. -/
def Phase.Plain : Phase → Prop
  | .awaiting _ _ | .failing _ => False
  | .ready | .running | .warned | .stopped => True

namespace Machine

open Execution

variable {s : Source} {m m' : Machine}

theorem reports_of_step {e? : Option Event} (h : step m = .ok e? m') :
  m.phase.Reports e? m'.phase
  := by
  obtain ⟨t, c, heffect⟩ := exists_effect_of_step h
  cases heffect
  all_goals constructor

/-- The statement that asks for a number has read its prompt and the slot that is to be filled. -/
theorem exists_request_of_step {prompt : String}
    (h : step m = .ok (some (.input prompt)) m') :
  ∃ c c' i, Cursor.next m.cursor = .ok (.keyword .inputWord) c ∧
    Reading.request c = .ok (prompt, i) c' ∧
    m' = { m with cursor := c', phase := .awaiting prompt i, statement := c.start }
  := by
  cases hnext : Cursor.next m.cursor with
  | error f c =>
    rw [step_of_next_error hnext] at h
    cases h
  | ok t c =>
    have heffect := (step_eq_iff hnext).mp h
    cases heffect with
    | input hrequest => exact ⟨c, _, _, rfl, hrequest, rfl⟩

/-- A statement that reports an event or ends in a fault is the last one of an execution. -/
inductive Ends (m : Machine) : Event → Machine → Prop
  | event {m' : Machine} {e : Event} (h : step m = .ok (some e) m') : Ends m e m'
  | fault {m' : Machine} {f : Fault} (h : step m = .error f m') :
    Ends m (.fault (f.orInLine m'.line)) { m' with phase := .stopped }

/-- An execution that comes to an event executes a last statement, after which it comes to it. -/
theorem exists_ends_of_proceed {n : Nat} {e : Event} (h : m.proceed n = (e, m'))
    (he : e ≠ .running) :
  ∃ k < n, ∃ m₁, m.proceed k = (.running, m₁) ∧ m₁.Ends e m'
  := by
  induction n generalizing m with
  | zero =>
    cases h
    contradiction
  | succ n ih =>
    rw [proceed] at h
    cases hstep : step m with
    | ok e? m₁ =>
      rw [hstep] at h
      cases e? with
      | none =>
        obtain ⟨k, hk, m₂, hrun, hends⟩ := ih h
        refine ⟨k + 1, Nat.succ_lt_succ hk, m₂, ?_, hends⟩
        rw [proceed, hstep]
        apply hrun
      | some e' =>
        cases h
        exact ⟨0, Nat.succ_pos n, m, rfl, .event hstep⟩
    | error f m₁ =>
      rw [hstep] at h
      cases h
      exact ⟨0, Nat.succ_pos n, m, rfl, .fault hstep⟩

/-- What is reported has come from a statement, or no statement had to be executed for it. -/
theorem exists_ends {n : Nat} {e : Event} (h : m.execute n = (e, m')) (he : e ≠ .running) :
  (∃ k < n, ∃ m₁, m.execute k = (.running, m₁) ∧ m₁.phase = .running ∧ m₁.Ends e m') ∨
    m.execute 0 = (e, m')
  := by
  have hrun : ∀ {m₁ m₂ : Machine} {k : Nat}, m₁.phase = .running →
      m₁.proceed k = (.running, m₂) → m₂.phase = .running :=
    fun hphase hk => (proceed_of_running hk hphase).1
  cases hphase : m.phase with
  | ready =>
    cases hstart : start m with
    | ok _ m₀ =>
      have hexecute := execute_of_start_ok hphase hstart
      rw [hexecute] at h
      obtain ⟨k, hk, m₁, hk', hends⟩ := exists_ends_of_proceed h he
      exact .inl ⟨k, hk, m₁, (hexecute k).trans hk', hrun (phase_of_start hstart) hk', hends⟩
    | error f m₀ =>
      rw [execute_of_start_error hphase hstart] at h ⊢
      exact .inr h
  | running =>
    rw [execute_of_running hphase] at h
    obtain ⟨k, hk, m₁, hk', hends⟩ := exists_ends_of_proceed h he
    exact .inl ⟨k, hk, m₁, (execute_of_running hphase k).trans hk', hrun hphase hk', hends⟩
  | warned | awaiting | failing | stopped =>
    rw [execute, hphase] at h ⊢
    exact .inr h

/-! ### Reachable machines -/

theorem reachable_ofSource (s : Source) :
  Reachable s (ofSource s)
  := ⟨[], rfl⟩

theorem Reachable.perform (h : Reachable s m) (r : Request) :
  Reachable s (m.perform r).2
  := by
  obtain ⟨rs, rfl⟩ := h
  use rs ++ [r]
  rw [performAll_append]
  rfl

theorem Reachable.execute {n : Nat} {e : Event} (h : Reachable s m) (hm : m.execute n = (e, m')) :
  Reachable s m'
  := by
  have hm' : (m.perform (.execute n)).2 = m' := congrArg Prod.snd hm
  rw [← hm']
  apply h.perform

/-- Every move is made by a request. -/
theorem exists_request_of_move (h : Move m m') :
  ∃ r, (m.perform r).2 = m'
  := by
  cases h with
  | @statement _ e? hrun h =>
    use .execute 1
    rw [Machine.perform, execute_of_running hrun, proceed, h]
    cases e? with
    | none | some => rfl
  | fault hrun h =>
    use .execute 1
    rw [Machine.perform, execute_of_running hrun, proceed, h]
    rfl
  | request r hr => use r

theorem Reachable.move (h : Reachable s m) (hmove : Move m m') :
  Reachable s m'
  := by
  obtain ⟨r, rfl⟩ := exists_request_of_move hmove
  apply h.perform

/-- What holds of a new machine, and is left alone by the moves of reachable machines, holds of
all of them. -/
theorem Reachable.induction {I : Machine → Prop} (h : Reachable s m) (hfirst : I (ofSource s))
    (hmove : ∀ m m', Reachable s m → I m → Move m m' → I m') :
  I m
  := by
  have hmoves := h.moves
  clear h
  suffices hboth : Reachable s m ∧ I m from hboth.2
  induction hmoves with
  | refl => exact ⟨reachable_ofSource s, hfirst⟩
  | tail _ hlast ih => exact ⟨ih.1.move hlast, hmove _ _ ih.1 ih.2 hlast⟩

/-! ### Machines that have been left by a request -/

/-- A request that executes no statement leaves a machine alone or in a plain phase, unless it is
the end of input where input is asked for. -/
theorem request_cases {r : Request} (hr : ∀ n, r = .execute n → n = 0) (m : Machine) :
  (m.perform r).2 = m ∨ (m.perform r).2.phase.Plain ∨
    ((m.perform r).2 = m.endOfInput ∧ ∃ prompt i, m.phase = .awaiting prompt i)
  := by
  cases r with
  | execute n =>
    obtain rfl := hr n rfl
    cases hphase : m.phase with
    | ready =>
      rw [perform, execute, hphase]
      simp only
      cases hstart : start m with
      | ok _ m₀ =>
        apply Or.inr ∘ Or.inl
        change m₀.phase.Plain
        rw [phase_of_start hstart]
        trivial
      | error f m₀ => exact .inr (.inl trivial)
    | running | awaiting | stopped =>
      rw [perform, execute, hphase]
      exact .inl rfl
    | warned | failing =>
      rw [perform, execute, hphase]
      exact .inr (.inl trivial)
  | enter line =>
    rw [perform, enter]
    split
    · split
      all_goals exact .inr (.inl trivial)
    · exact .inl rfl
  | endOfInput =>
    cases hphase : m.phase with
    | awaiting prompt i => exact .inr (.inr ⟨rfl, prompt, i, rfl⟩)
    | ready | running | warned | failing | stopped =>
      rw [perform, endOfInput, hphase]
      exact .inl rfl
  | interrupt =>
    rw [perform, interrupt]
    split
    · exact .inl rfl
    · exact .inr (.inl trivial)
  | restart => exact .inr (.inl trivial)

/-- The machine has been left by the statement that asks for a number, with a prompt. -/
def Asked (s : Source) (prompt : String) (m : Machine) : Prop :=
  ∃ m₀, Reachable s m₀ ∧ m₀.phase = .running ∧ step m₀ = .ok (some (.input prompt)) m

/-- A machine that asks for a number has been left by the statement that asks, and one that has a
fault to report has been left by the end of input where it has asked for a number. -/
theorem Reachable.origin (h : Reachable s m) :
  (∀ prompt i, m.phase = .awaiting prompt i → Asked s prompt m) ∧
  ∀ f, m.phase = .failing f →
    ∃ m₁ prompt i, Asked s prompt m₁ ∧ m₁.phase = .awaiting prompt i ∧ m = m₁.endOfInput
  := by
  apply h.induction
  · constructor
    · rintro _ _ ⟨⟩
    · rintro _ ⟨⟩
  · rintro m m' hreach ⟨hasked, hfailing⟩ hmove
    cases hmove with
    | statement hrun hstep =>
      have hreports := reports_of_step hstep
      rw [hrun] at hreports
      constructor
      · intro prompt i hphase
        rw [hphase] at hreports
        cases hreports
        exact ⟨m, hreach, hrun, hstep⟩
      · intro f hphase
        rw [hphase] at hreports
        cases hreports
    | fault =>
      constructor
      · rintro _ _ ⟨⟩
      · rintro _ ⟨⟩
    | request r hr =>
      obtain hsame | hplain | ⟨hend, prompt, i, hphase⟩ := request_cases hr m
      · rw [hsame]
        exact ⟨hasked, hfailing⟩
      · constructor
        · intro prompt i hphase
          rw [hphase] at hplain
          contradiction
        · intro f hphase
          rw [hphase] at hplain
          contradiction
      · rw [hend]
        constructor
        · intro prompt' i' hphase'
          rw [endOfInput, hphase] at hphase'
          cases hphase'
        · intro _ _
          exact ⟨m, prompt, i, hasked prompt i hphase, hphase, rfl⟩

end Machine

end LineBasic
