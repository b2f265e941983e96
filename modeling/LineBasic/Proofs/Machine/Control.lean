import LineBasic.Proofs.Machine.Answer

/-!
# The control of a run

Whether a program runs and what is still to be reported are two things: a run may be over before
its last fault has been reported, and a warning may be dropped.  The phase of a machine tells
both of them.  Requests change them by rules of their own, from which it follows when something
can be left to be reported, and that a run that has come to its end stays there until the machine
is restarted.
-/

namespace LineBasic

open Program
open Machine (Request)

/-- How far the run of a program has come. -/
inductive Control.Run where
  /-- It is still to be started. -/
  | start
  /-- It goes on with the next statement. -/
  | running
  /-- It waits, with a prompt, for the number of a slot. -/
  | waiting (prompt : String) (slot : Slot)
  /-- It is over. -/
  | ended
  deriving DecidableEq

/-- How far a run has come, and the event that is to be reported before anything else is done. -/
structure Control where
  run : Control.Run
  pending : Option Event := none
  deriving DecidableEq

namespace Control

/-- The events to which starting a program and executing statements may come, and how far the run
has come with them. -/
inductive Leads : Event → Run → Prop
  | running : Leads .running .running
  | print {text : String} : Leads (.print text) .running
  | input {prompt : String} {i : Slot} : Leads (.input prompt) (.waiting prompt i)
  | stopped : Leads .stopped .ended
  | fault {f : Fault} : Leads (.fault f) .ended

/-- The rules by which requests are met. -/
inductive Next : Request → Control → Option Event → Control → Prop
  /-- What is pending is reported first. -/
  | pending {n : Nat} {run : Run} {e : Event} :
    Next (.execute n) ⟨run, some e⟩ (some e) ⟨run, none⟩
  | waiting {n : Nat} {prompt : String} {i : Slot} :
    Next (.execute n) ⟨.waiting prompt i, none⟩ (some (.input prompt)) ⟨.waiting prompt i, none⟩
  | ended {n : Nat} : Next (.execute n) ⟨.ended, none⟩ (some .stopped) ⟨.ended, none⟩
  | started {n : Nat} {e : Event} {run : Run} (h : Leads e run) :
    Next (.execute n) ⟨.start, none⟩ (some e) ⟨run, none⟩
  | running {n : Nat} {e : Event} {run : Run} (h : Leads e run) :
    Next (.execute n) ⟨.running, none⟩ (some e) ⟨run, none⟩
  /-- What is entered is a number, or is warned of. -/
  | entered {line : String} {prompt : String} {i : Slot} {e? : Option Event} {x : Float}
    (hx : Number.ofChars? (trimmed line.toList) = some x) :
    Next (.enter line) ⟨.waiting prompt i, e?⟩ none ⟨.running, e?⟩
  | refused {line : String} {prompt : String} {i : Slot} {e? : Option Event}
    (hx : Number.ofChars? (trimmed line.toList) = none) :
    Next (.enter line) ⟨.waiting prompt i, e?⟩ none
      ⟨.running, some (.warning "INVALID INPUT")⟩
  | ignored {line : String} {c : Control} (hrun : ∀ prompt i, c.run ≠ .waiting prompt i) :
    Next (.enter line) c none c
  /-- The end of input is a fault where input is waited for. -/
  | unreadable {prompt : String} {i : Slot} {e? : Option Event} {f : Fault}
    (hf : f.kind = .inputUnreadable) :
    Next .endOfInput ⟨.waiting prompt i, e?⟩ none ⟨.ended, some (.fault f)⟩
  | unneeded {c : Control} (hrun : ∀ prompt i, c.run ≠ .waiting prompt i) :
    Next .endOfInput c none c
  /-- A run that is over is not interrupted, and keeps what is pending. -/
  | interrupted {c : Control} (hrun : c.run ≠ .ended) : Next .interrupt c none ⟨.ended, none⟩
  | uninterrupted {e? : Option Event} : Next .interrupt ⟨.ended, e?⟩ none ⟨.ended, e?⟩
  | restarted {c : Control} : Next .restart c none ⟨.start, none⟩

/-- What requests lead to from a run that is still to be started. -/
inductive Reached : Control → Prop
  | first : Reached ⟨.start, none⟩
  | next {c c' : Control} {r : Request} {e? : Option Event} (h : Reached c)
    (hnext : Next r c e? c') : Reached c'

/-- A warning is pending only while the program runs, and a fault of input only when the run is
over; nothing is pending while input is waited for, and nothing else is ever pending. -/
structure Sound (c : Control) : Prop where
  warning : ∀ text, c.pending = some (.warning text) → c.run = .running
  fault : ∀ f, c.pending = some (.fault f) → c.run = .ended ∧ f.kind = .inputUnreadable
  waiting : ∀ prompt i, c.run = .waiting prompt i → c.pending = none
  kinds : ∀ e, c.pending = some e → (∃ text, e = .warning text) ∨ ∃ f, e = .fault f

variable {c c' : Control} {r : Request} {e? : Option Event}

/-- Where nothing is pending nothing is wrong. -/
theorem sound_of_none (run : Run) :
  Sound ⟨run, none⟩
  where
  warning _ h := by cases h
  fault _ h := by cases h
  waiting _ _ _ := rfl
  kinds _ h := by cases h

/-- No request breaks the rules on what is pending. -/
theorem Sound.next (hc : Sound c) (h : Next r c e? c') :
  Sound c'
  := by
  cases h with
  | pending | waiting | ended | started | running | restarted => apply sound_of_none
  | interrupted => apply sound_of_none
  | ignored | unneeded | uninterrupted => apply hc
  | @entered _ _ _ e? =>
    obtain rfl : e? = none := hc.waiting _ _ rfl
    apply sound_of_none
  | refused =>
    constructor
    · intro _ _
      rfl
    · intro f hf
      cases hf
    · intro prompt i hrun
      cases hrun
    · intro e he
      cases he
      exact .inl ⟨_, rfl⟩
  | unreadable hf =>
    constructor
    · intro text htext
      cases htext
    · intro f' hf'
      cases hf'
      exact ⟨rfl, hf⟩
    · intro prompt i hrun
      cases hrun
    · intro e he
      cases he
      exact .inr ⟨_, rfl⟩

theorem Reached.sound (h : Reached c) :
  Sound c
  := by
  induction h with
  | first => apply sound_of_none
  | next _ hnext ih => apply ih.next hnext

/-- Once it has been reported that a program has stopped, or a fault, the run is over and nothing
is pending. -/
theorem Sound.ended (hc : Sound c) {n : Nat} {e : Event} (h : Next (.execute n) c (some e) c')
    (he : e = .stopped ∨ ∃ f, e = .fault f) :
  c' = ⟨.ended, none⟩
  := by
  cases h with
  | pending =>
    rcases hc.kinds _ rfl with ⟨text, rfl⟩ | ⟨f, rfl⟩
    · rcases he with he | ⟨f, he⟩
      all_goals cases he
    · have hrun := (hc.fault f rfl).1
      simp only at hrun
      rw [hrun]
  | waiting =>
    rcases he with he | ⟨f, he⟩
    all_goals cases he
  | ended => rfl
  | started h | running h =>
    rcases he with rfl | ⟨f, rfl⟩
    all_goals
      cases h
      rfl

end Control

/-! ### The control of a machine -/

/-- The control that a phase stands for. -/
def Phase.control : Phase → Control
  | .ready => ⟨.start, none⟩
  | .running => ⟨.running, none⟩
  | .warned => ⟨.running, some (.warning "INVALID INPUT")⟩
  | .awaiting prompt i => ⟨.waiting prompt i, none⟩
  | .failing f => ⟨.ended, some (.fault f)⟩
  | .stopped => ⟨.ended, none⟩

/-- A machine is at rest when its run is over and nothing is pending. -/
theorem Phase.control_eq_iff {p : Phase} :
  p.control = ⟨.ended, none⟩ ↔ p = .stopped
  := by
  constructor
  · intro h
    cases p
    all_goals cases h
    rfl
  · rintro rfl
    rfl

namespace Machine

open Execution
open Control (Leads Next Sound)

variable {s : Source} {m m' : Machine} {n : Nat} {e : Event} {f : Fault}

/-- How far the run of a machine has come, and what it has still to report. -/
def control (m : Machine) : Control :=
  m.phase.control

theorem leads_of_proceed (hrun : m.phase = .running) (h : m.proceed n = (e, m')) :
  ∃ run, Leads e run ∧ m'.control = ⟨run, none⟩
  := by
  by_cases he : e = .running
  · subst he
    refine ⟨.running, .running, ?_⟩
    rw [control, (proceed_of_running h hrun).1]
    rfl
  · obtain ⟨k, -, m₁, hk, hends⟩ := exists_ends_of_proceed h he
    cases hends with
    | event hstep =>
      have hreports := reports_of_step hstep
      rw [(proceed_of_running hk hrun).1] at hreports
      rw [control]
      generalize m'.phase = p at hreports
      cases hreports with
      | print => exact ⟨_, .print, rfl⟩
      | input => exact ⟨_, .input, rfl⟩
      | stopped => exact ⟨_, .stopped, rfl⟩
    | fault => exact ⟨_, .fault, rfl⟩

/-- The control of a machine changes by the rules, whatever is requested. -/
theorem next_perform (m : Machine) (r : Request) :
  Next r m.control (m.perform r).1 (m.perform r).2.control
  := by
  cases r with
  | execute n =>
    cases hphase : m.phase with
    | ready =>
      rw [control, hphase, perform]
      cases hstart : start m with
      | ok _ m₀ =>
        rw [execute_of_start_ok hphase hstart]
        obtain ⟨run, hleads, hcontrol⟩ := leads_of_proceed (n := n) (phase_of_start hstart) rfl
        simp only
        rw [hcontrol]
        exact .started hleads
      | error f m₀ =>
        rw [execute_of_start_error hphase hstart]
        exact .started .fault
    | running =>
      rw [control, hphase, perform, execute_of_running hphase]
      obtain ⟨run, hleads, hcontrol⟩ := leads_of_proceed (n := n) hphase rfl
      simp only
      rw [hcontrol]
      exact .running hleads
    | warned | failing =>
      rw [control, hphase, perform, execute, hphase]
      exact .pending
    | awaiting =>
      rw [perform, execute, hphase]
      simp only
      rw [control, hphase]
      exact .waiting
    | stopped =>
      rw [perform, execute, hphase]
      simp only
      rw [control, hphase]
      exact .ended
  | enter line =>
    cases hphase : m.phase with
    | awaiting prompt i =>
      rw [control, hphase, perform, enter, hphase]
      simp only
      split
      · next hx => exact .entered hx
      · next hx => exact .refused hx
    | ready | running | warned | failing | stopped =>
      rw [perform, enter, hphase]
      simp only
      rw [control, hphase]
      apply Next.ignored
      intro _ _
      apply Control.Run.noConfusion
  | endOfInput =>
    cases hphase : m.phase with
    | awaiting prompt i =>
      rw [control, hphase, perform, endOfInput, hphase]
      exact .unreadable rfl
    | ready | running | warned | failing | stopped =>
      rw [perform, endOfInput, hphase]
      simp only
      rw [control, hphase]
      apply Next.unneeded
      intro _ _
      apply Control.Run.noConfusion
  | interrupt =>
    cases hphase : m.phase with
    | failing =>
      rw [perform, interrupt, hphase]
      simp only
      rw [control, hphase]
      exact .uninterrupted
    | stopped =>
      rw [control, hphase, perform, interrupt, hphase]
      exact .uninterrupted
    | ready | running | warned | awaiting =>
      rw [control, hphase, perform, interrupt, hphase]
      exact .interrupted Control.Run.noConfusion
  | restart => exact .restarted

theorem Reachable.control (h : Reachable s m) :
  m.control.Reached
  := by
  apply h.induction
  · exact .first
  · intro m m' _ hm hmove
    obtain ⟨r, rfl⟩ := exists_request_of_move hmove
    exact hm.next (next_perform m r)

/-! ### The end of a run -/

/-- How often requests execute a machine. -/
def executions : List Request → Nat
  | [] => 0
  | .execute _ :: rs => executions rs + 1
  | .enter _ :: rs | .endOfInput :: rs | .interrupt :: rs | .restart :: rs => executions rs

/-- A machine that has stopped does nothing until it is restarted. -/
theorem performAll_of_stopped (h : m.phase = .stopped) {rs : List Request}
    (hrs : .restart ∉ rs) :
  m.performAll rs = (List.replicate (executions rs) .stopped, m)
  := by
  have hidle : Idle m := .inr h
  induction rs with
  | nil => rfl
  | cons r rs ih =>
    rw [List.mem_cons, not_or] at hrs
    have hrest := ih hrs.2
    rw [performAll]
    cases r with
    | execute n =>
      rw [perform, execute, h]
      simp only
      rw [hrest]
      rfl
    | enter line =>
      rw [perform, hidle.enter]
      exact hrest
    | endOfInput =>
      rw [perform, hidle.endOfInput]
      exact hrest
    | interrupt =>
      have hsame : m.interrupt = m := by
        rw [hidle.interrupt, ← h]
      rw [perform, hsame]
      exact hrest
    | restart => exact absurd rfl hrs.1

/-- A machine that has a fault to report reports it once before it does nothing any more. -/
theorem performAll_of_failing (h : m.phase = .failing f) {rs : List Request}
    (hrs : .restart ∉ rs) :
  (m.performAll rs).1 =
      (.fault f :: List.replicate (executions rs) .stopped).take (executions rs) ∧
    ∃ p, (m.performAll rs).2 = { m with phase := p }
  := by
  induction rs with
  | nil => exact ⟨rfl, m.phase, rfl⟩
  | cons r rs ih =>
    rw [List.mem_cons, not_or] at hrs
    have hrest := ih hrs.2
    rw [performAll]
    cases r with
    | execute n =>
      have hstopped := performAll_of_stopped (m := { m with phase := .stopped }) rfl hrs.2
      rw [perform, execute, h]
      simp only
      rw [hstopped, executions, List.take_succ_cons, List.take_replicate]
      constructor
      · rw [Nat.min_eq_left (Nat.le_succ _)]
        rfl
      · exact ⟨_, rfl⟩
    | enter line =>
      rw [perform, enter, h]
      exact hrest
    | endOfInput =>
      rw [perform, endOfInput, h]
      exact hrest
    | interrupt =>
      rw [perform, interrupt, h]
      exact hrest
    | restart => exact absurd rfl hrs.1

/-- A fault that is pending is the one that the machine fails with. -/
theorem phase_of_pending (h : m.control.pending = some (.fault f)) :
  m.phase = .failing f
  := by
  rw [control] at h
  cases hphase : m.phase
  all_goals
    rw [hphase] at h
    cases h
  rfl

/-- A fault that is pending is reported although the machine is interrupted. -/
theorem interrupt_of_pending (h : m.control.pending = some (.fault f)) :
  m.interrupt = m
  := by
  rw [interrupt, phase_of_pending h]

/-- Without such a fault, an interrupted machine has stopped. -/
theorem interrupt_of_not_pending (h : ∀ f, m.control.pending ≠ some (.fault f)) :
  m.interrupt = { m with phase := .stopped }
  := by
  rw [interrupt]
  split
  · next f hphase =>
    apply absurd _ (h f)
    rw [control, hphase]
    rfl
  · rfl

/-- A machine is at rest exactly if executing no statement reports that it has stopped. -/
theorem isStopped_iff :
  m.isStopped = true ↔ (m.execute 0).1 = .stopped
  := by
  rw [isStopped, decide_eq_true_eq, execute]
  cases hphase : m.phase with
  | ready =>
    constructor
    · rintro ⟨⟩
    · intro h
      simp only at h
      split at h
      · cases h
      · cases h
  | running | warned | awaiting | failing =>
    constructor
    · rintro ⟨⟩
    · rintro ⟨⟩
  | stopped => exact ⟨fun _ => rfl, fun _ => rfl⟩

/-- A machine has stopped once it has reported that, or a fault. -/
theorem phase_of_end (h : Reachable s m) (hm : m.execute n = (e, m'))
    (he : e = .stopped ∨ ∃ f, e = .fault f) :
  m'.phase = .stopped
  := by
  have hnext := next_perform m (.execute n)
  rw [perform, hm] at hnext
  apply Phase.control_eq_iff.mp
  apply h.control.sound.ended hnext he

/-- The control of a machine changes by the rules, by which a warning is pending only while the
program runs, a fault only when the run is over, and nothing while input is waited for.  The
machine is at rest exactly if executing it reports that it has stopped, which then changes
nothing.  Once it has reported that it has stopped, or a fault, it reports nothing else and stays
as it is until it is restarted.  Once it has been interrupted it executes no statement until
then; it reports that it has stopped, but before that, once, the fault of input that had ended. -/
theorem runs_end_for_good (h : Reachable s m) :
  (m.isStopped = true ↔ (m.execute 0).1 = .stopped) ∧
  (m.isStopped = true ↔ m.control = ⟨.ended, none⟩) ∧
  (m.isStopped = true → ∀ n, m.execute n = (.stopped, m)) ∧
  (∀ n e m', m.execute n = (e, m') → (e = .stopped ∨ ∃ f, e = .fault f) →
    ∀ rs, .restart ∉ rs → m'.performAll rs = (List.replicate (executions rs) .stopped, m')) ∧
  (∀ rs, .restart ∉ rs →
    (∃ p, (m.interrupt.performAll rs).2 = { m with phase := p }) ∧
    (∀ f, m.control.pending = some (.fault f) →
      f.kind = .inputUnreadable ∧ (m.interrupt.performAll rs).1 =
        (.fault f :: List.replicate (executions rs) .stopped).take (executions rs)) ∧
    ((∀ f, m.control.pending ≠ some (.fault f)) →
      (m.interrupt.performAll rs).1 = List.replicate (executions rs) .stopped)) ∧
  m.control.Sound ∧
  ∀ r, Next r m.control (m.perform r).1 (m.perform r).2.control
  := by
  have hsound := h.control.sound
  and_intros
  · apply isStopped_iff
  · rw [isStopped, decide_eq_true_eq, control, Phase.control_eq_iff]
  · intro hstopped n
    rw [isStopped, decide_eq_true_eq] at hstopped
    rw [execute, hstopped]
  · intro n e m' hm he rs hrs
    apply performAll_of_stopped (phase_of_end h hm he) hrs
  · intro rs hrs
    and_intros
    · by_cases hpending : ∃ f, m.control.pending = some (.fault f)
      · obtain ⟨f, hf⟩ := hpending
        rw [interrupt_of_pending hf]
        apply (performAll_of_failing (phase_of_pending hf) hrs).2
      · rw [interrupt_of_not_pending (not_exists.mp hpending), performAll_of_stopped rfl hrs]
        exact ⟨_, rfl⟩
    · intro f hf
      rw [interrupt_of_pending hf]
      exact ⟨(hsound.fault f hf).2, (performAll_of_failing (phase_of_pending hf) hrs).1⟩
    · intro hnone
      rw [interrupt_of_not_pending hnone, performAll_of_stopped rfl hrs]
  · apply hsound
  · apply next_perform

/-- A program that asks for a number, where input has ended. -/
def unanswered : Machine :=
  ((ofString "INPUT A").performAll [.execute 9, .endOfInput]).2

/-- The fault is reported once although the program is interrupted, and a program that has come to
its end does not go on. -/
theorem runs_end_for_good_without_answer :
  (unanswered.interrupt.performAll [.execute 5, .enter "1", .execute 5]).1 =
    [.fault ⟨.inputUnreadable, some 1, ""⟩, .stopped] ∧
  ∃ m', (ofString "A = 1").execute 9 = (.stopped, m') ∧
    m'.performAll [.execute 7, .interrupt] = ([.stopped], m')
  := by
  have hunanswered : Reachable (.ofString "INPUT A") unanswered := ⟨_, rfl⟩
  have hnew : Reachable (.ofString "A = 1") (ofString "A = 1") := reachable_ofSource _
  obtain ⟨-, -, -, -, hinterrupt, -⟩ := runs_end_for_good hunanswered
  obtain ⟨-, -, -, hend, -⟩ := runs_end_for_good hnew
  constructor
  · have hpending : unanswered.control.pending =
        some (.fault ⟨.inputUnreadable, some 1, ""⟩) := by
      decide +kernel
    have hevents := (hinterrupt [.execute 5, .enter "1", .execute 5] (by decide)).2.1 _ hpending
    rw [hevents.2]
    rfl
  · have hevent : ((ofString "A = 1").execute 9).1 = .stopped := by
      decide +kernel
    generalize hx : (ofString "A = 1").execute 9 = x at hevent
    obtain ⟨_, m'⟩ := x
    obtain rfl := hevent
    exact ⟨m', rfl, hend 9 _ m' hx (.inl rfl) [.execute 7, .interrupt] (by decide)⟩

end Machine

end LineBasic
