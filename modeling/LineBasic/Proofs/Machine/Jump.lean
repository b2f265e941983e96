import LineBasic.Proofs.Machine.Effect
import LineBasic.Proofs.Machine.Restart
import LineBasic.Proofs.Stack

/-!
# Where jumps lead

A machine has either never been started with success, and then has no labels, or it has the
labels of its source.  A jump therefore leads to the offset after the label that it names, in
the line of the source that starts with this label, in every run.  If there is no such line the
run ends with a fault, and nothing has been changed by the jump.
-/

namespace LineBasic

open Program
open Relation (ReflTransGen)

/-! ### Labels named by jumps -/

namespace Source

/-- What naming a label at a cursor comes to: the offset after this label in a visited line, or
a fault if there is no such line or if no number is read. -/
inductive Resolves (s : Source) (c : Cursor) : EStateM.Result Fault Cursor Nat → Prop
  | label {c' : Cursor} {label : String} {a b : Nat}
    (hnext : Cursor.next c = .ok (.number label) c') (hb : s.Visited b)
    (hlabel : s.Labelled b label a) : Resolves s c (.ok a c')
  | unknown {c' : Cursor} {label : String} (hnext : Cursor.next c = .ok (.number label) c')
    (hnone : ∀ b a, s.Visited b → ¬ s.Labelled b label a) :
    Resolves s c (.error (Fault.of .undefinedLabel label) c')
  | nameless {c' : Cursor} {t : Token} (hnext : Cursor.next c = .ok t c')
    (ht : ∀ label, t ≠ .number label) : Resolves s c (.error (Fault.of .undefinedLabel) c')
  | unclosed {c' : Cursor} {f : Fault} (hnext : Cursor.next c = .error f c') :
    Resolves s c (.error (Fault.of .missingClosingQuote) c')

end Source

namespace Labels

variable {s : Source} {t : Labels} {c : Cursor}

/-- A complete table leads from the number that is read to where the source has it. -/
theorem Complete.resolves (h : Complete s t) (c : Cursor) :
  s.Resolves c (Reading.destination t c)
  := by
  cases hnext : Cursor.next c with
  | error f c' =>
    rw [Reading.destination_of_error hnext]
    obtain ⟨-, rfl, -⟩ := Cursor.next_eq_error_iff.mp hnext
    exact .unclosed hnext
  | ok u c' =>
    cases u with
    | number label =>
      cases hget : t.get? label with
      | some a =>
        rw [Reading.destination_of_get? hnext hget]
        obtain ⟨b, hb, hlabel⟩ := (h.get?_eq label a).mp hget
        exact .label hnext hb hlabel
      | none =>
        rw [Reading.destination_of_get?_none hnext hget]
        apply Source.Resolves.unknown hnext
        intro b a hb hlabel
        rw [(h.get?_eq label a).mpr ⟨b, hb, hlabel⟩] at hget
        contradiction
    | delimiter | name | keyword | quoted | endOfLine | endOfProgram =>
      rw [Reading.destination_of_next hnext fun _ => Token.noConfusion]
      exact .nameless hnext fun _ => Token.noConfusion

/-- Nothing else comes of naming a label. -/
theorem Complete.destination_eq {r : EStateM.Result Fault Cursor Nat} (h : Complete s t)
    (hr : s.Resolves c r) :
  Reading.destination t c = r
  := by
  cases hr with
  | label hnext hb hlabel =>
    apply Reading.destination_of_get? hnext
    apply (h.get?_eq _ _).mpr ⟨_, hb, hlabel⟩
  | @unknown c' label hnext hnone =>
    apply Reading.destination_of_get?_none hnext
    cases hget : t.get? label with
    | none => rfl
    | some a =>
      obtain ⟨b, hb, hlabel⟩ := (h.get?_eq label a).mp hget
      exact absurd hlabel (hnone b a hb)
  | nameless hnext ht => apply Reading.destination_of_next hnext ht
  | unclosed hnext =>
    obtain ⟨-, rfl, -⟩ := Cursor.next_eq_error_iff.mp hnext
    apply Reading.destination_of_error hnext

/-- The fault of the labels of a source is already placed in a line. -/
theorem orInLine_of_build_eq_error {f : Fault} {c' : Cursor} (h : build c = .error f c')
    (n : Nat) :
  f.orInLine n = f
  := by
  have hverdict := verdict_build c
  rw [h] at hverdict
  obtain ⟨b, -, hf, -⟩ := hverdict
  cases hf with
  | unclosed | repeated => rfl

/-- The labels of a source do not depend on the cursor with which they are noted. -/
theorem build_cursor (hs : c.source = s) :
  build c = build (s.cursor 0)
  := by
  apply build_of_sameSource
  apply hs

end Labels

namespace Machine

open Execution

variable {s : Source} {m m' : Machine}

/-! ### Machines with and without labels -/

/-- A machine of a source that has not been started with success. -/
structure Fresh (s : Source) (m : Machine) : Prop where
  source_eq : m.cursor.source = s
  labels_eq : m.labels = .empty
  memory_eq : m.memory = .zero
  idle : Idle m

/-- A machine of a source that has the labels of this source. -/
structure Built (s : Source) (m : Machine) : Prop where
  source_eq : m.cursor.source = s
  build_eq : ∃ c, Labels.build (s.cursor 0) = .ok m.labels c

theorem Built.complete (hm : Built s m) :
  Labels.Complete s m.labels
  := by
  obtain ⟨c, hc⟩ := hm.build_eq
  have hverdict := Labels.verdict_build (s.cursor 0)
  rw [hc] at hverdict
  apply hverdict

/-- There is only one table of the labels of a source. -/
theorem Built.labels_eq {t : Labels} {c : Cursor} (hm : Built s m)
    (h : Labels.build (s.cursor 0) = .ok t c) :
  m.labels = t
  := by
  obtain ⟨c', hc'⟩ := hm.build_eq
  rw [h] at hc'
  cases hc'
  rfl

theorem fresh_ofSource (s : Source) :
  Fresh s (ofSource s)
  where
  source_eq := rfl
  labels_eq := rfl
  memory_eq := rfl
  idle := .inl rfl

/-- A machine that is started has the labels of its source. -/
theorem built_of_build {t : Labels} {c : Cursor} (h : Labels.build (s.cursor 0) = .ok t c) :
  Built s { cursor := { source := s }, phase := .running, labels := t }
  where
  source_eq := rfl
  build_eq := ⟨c, h⟩

/-- Having the labels of the source is an invariant. -/
theorem invariant_built (s : Source) :
  Invariant (Built s)
  where
  step m hm := by
    have hsame := sameProgram_step m
    constructor
    · apply hsame.source_eq.trans hm.source_eq
    · rw [hsame.labels_eq]
      apply hm.build_eq
  start m hm := by
    obtain ⟨c, hc⟩ := hm.build_eq
    have hbuild := (Labels.build_cursor hm.source_eq).trans hc
    rw [start_of_build_eq_ok hbuild, hm.source_eq]
    apply built_of_build hc
  resume _ _ _ hm := ⟨hm.source_eq, hm.build_eq⟩

/-! ### Starts -/

/-- A program whose labels are not at fault starts to run. -/
theorem execute_of_build_eq_ok {t : Labels} {c : Cursor} (hs : m.cursor.source = s)
    (hready : m.phase = .ready) (h : Labels.build (s.cursor 0) = .ok t c) (n : Nat) :
  m.execute n = proceed n { cursor := { source := s }, phase := .running, labels := t }
  := by
  have hbuild := (Labels.build_cursor hs).trans h
  rw [execute, hready]
  simp only
  rw [start_of_build_eq_ok hbuild, hs]

/-- A program whose labels are at fault stops with this fault before its first statement. -/
theorem Fresh.execute_of_build_eq_error {f : Fault} {c : Cursor} (hm : Fresh s m)
    (hready : m.phase = .ready) (h : Labels.build (s.cursor 0) = .error f c) (n : Nat) :
  m.execute n = (.fault f, { cursor := c, phase := .stopped })
  := by
  have hbuild := (Labels.build_cursor hm.source_eq).trans h
  rw [execute, hready]
  simp only
  rw [start_of_build_eq_error hbuild, hm.labels_eq]
  simp only [fail]
  rw [Labels.orInLine_of_build_eq_error hbuild]

/-- A machine that has not been started moves by being started, or not at all. -/
theorem Fresh.move (hm : Fresh s m) (h : Move m m') :
  Fresh s m' ∨ Built s m'
  := by
  have hidle : ∀ {p : Phase}, p = .ready ∨ p = .stopped → Fresh s { m with phase := p } :=
    fun hp => ⟨hm.source_eq, hm.labels_eq, hm.memory_eq, hp⟩
  have hrun : m.phase ≠ .running := by
    intro hrun
    rcases hm.idle with hp | hp
    all_goals
      rw [hrun] at hp
      contradiction
  cases h with
  | statement hrun' => exact absurd hrun' hrun
  | fault hrun' => exact absurd hrun' hrun
  | request r hr =>
    cases r with
    | execute n =>
      obtain rfl := hr n rfl
      rw [perform]
      rcases hm.idle with hready | hstopped
      · cases hb : Labels.build (s.cursor 0) with
        | ok t c =>
          rw [execute_of_build_eq_ok hm.source_eq hready hb]
          exact .inr (built_of_build hb)
        | error f c =>
          rw [hm.execute_of_build_eq_error hready hb]
          have hsource := Labels.keeps_sameSource_build.of_error hb
          exact .inl ⟨hsource, rfl, rfl, .inr rfl⟩
      · rw [execute, hstopped]
        exact .inl hm
    | enter line =>
      rw [perform, hm.idle.enter]
      exact .inl hm
    | endOfInput =>
      rw [perform, hm.idle.endOfInput]
      exact .inl hm
    | interrupt =>
      rw [perform, hm.idle.interrupt]
      exact .inl (hidle (.inr rfl))
    | restart => exact .inl (hidle (.inl rfl))

/-- All machines that are reached have the labels of their source, or have not been started with
success. -/
theorem fresh_or_built (h : Reachable s m) :
  Fresh s m ∨ Built s m
  := by
  have hmoves := h.moves
  clear h
  induction hmoves with
  | refl => exact .inl (fresh_ofSource s)
  | tail _ hmove ih =>
    rcases ih with hfresh | hbuilt
    · apply hfresh.move hmove
    · exact .inr ((invariant_built s).move hmove hbuilt)

/-- Machines that are neither about to start nor stopped have the labels of their source. -/
theorem built_of_not_idle (h : Reachable s m) (hm : ¬ Idle m) :
  Built s m
  := by
  rcases fresh_or_built h with hfresh | hbuilt
  · exact absurd hfresh.idle hm
  · exact hbuilt

/-! ### Jumps -/

/-- A running machine goes on after a step that reports nothing. -/
theorem execute_succ_of_ok (hrun : m.phase = .running) (h : step m = .ok none m') (n : Nat) :
  m.execute (n + 1) = m'.execute n
  := by
  have hrun' := (phase_of_step h).trans hrun
  rw [execute_of_running hrun, execute_of_running hrun', proceed, h]

/-- A running machine reports the event of a statement. -/
theorem execute_succ_of_event {e : Event} (hrun : m.phase = .running)
    (h : step m = .ok (some e) m') (n : Nat) :
  m.execute (n + 1) = (e, m')
  := by
  rw [execute_of_running hrun, proceed, h]

/-- The report of a fault in the statement whose first token ends at `c`, and the machine that has
stopped where the fault has been met, at `c'`, with nothing else changed. -/
def faultAt (m : Machine) (c c' : Cursor) (f : Fault) : Event × Machine :=
  (.fault (f.inLine (c'.lineOf c.start)),
    { m with cursor := c', phase := .stopped, statement := c.start })

/-- A running machine stops with the fault of a statement. -/
theorem execute_succ_of_error {f : Fault} {c c' : Cursor} (hrun : m.phase = .running)
    (h : step m = .error f { m with cursor := c', statement := c.start }) (hf : f.line? = none)
    (n : Nat) :
  m.execute (n + 1) = m.faultAt c c' f
  := by
  have hline : ∀ k, f.orInLine k = f.inLine k := by
    intro k
    rw [Fault.orInLine, hf]
    rfl
  rw [execute_of_running hrun, proceed, h]
  simp only [fail, hline]
  rfl

/-- The faults of naming a label are not yet placed in a line. -/
theorem line?_of_resolves {f : Fault} {c c' : Cursor} (h : s.Resolves c (.error f c')) :
  f.line? = none
  := by
  cases h with
  | unknown | nameless | unclosed => rfl

section Jump

variable {c c' : Cursor} {a : Nat} {f : Fault} (hm : Built s m) (hrun : m.phase = .running)

include hm hrun

/-- `GOTO` goes on after the label that it names. -/
theorem execute_goto_of_ok (hnext : Cursor.next m.cursor = .ok (.keyword .gotoWord) c)
    (hr : s.Resolves c (.ok a c')) (n : Nat) :
  m.execute (n + 1) = execute n { m with cursor := c'.jump a, statement := c.start }
  := by
  have hdestination := hm.complete.destination_eq hr
  apply execute_succ_of_ok hrun
  apply (step_eq_iff hnext).mpr
  exact Effect.goto hdestination

theorem execute_goto_of_error (hnext : Cursor.next m.cursor = .ok (.keyword .gotoWord) c)
    (hr : s.Resolves c (.error f c')) (n : Nat) :
  m.execute (n + 1) = m.faultAt c c' f
  := by
  have hdestination := hm.complete.destination_eq hr
  apply execute_succ_of_error hrun _ (line?_of_resolves hr)
  apply (step_eq_iff hnext).mpr
  exact Effect.gotoFault hdestination

/-- `GOSUB` goes on after the label that it names, unless the stack is full. -/
theorem execute_gosub_of_ok (hnext : Cursor.next m.cursor = .ok (.keyword .gosubWord) c)
    (hr : s.Resolves c (.ok a c')) (hlt : m.calls.size < Stack.limit) (n : Nat) :
  ∃ st, st.frames = c'.pos :: m.calls.frames ∧
    m.execute (n + 1) =
      execute n { m with cursor := c'.jump a, calls := st, statement := c.start }
  := by
  have hdestination := hm.complete.destination_eq hr
  obtain ⟨st, hpush⟩ := Stack.exists_push hlt c'.pos
  use st, (Stack.push_eq_ok_iff.mp hpush).2
  apply execute_succ_of_ok hrun
  apply (step_eq_iff hnext).mpr
  exact Effect.gosub hdestination hpush

theorem execute_gosub_of_full (hnext : Cursor.next m.cursor = .ok (.keyword .gosubWord) c)
    (hr : s.Resolves c (.ok a c')) (hfull : Stack.limit ≤ m.calls.size) (n : Nat) :
  m.execute (n + 1) = m.faultAt c c' (Fault.of .outOfMemory "TOO MANY GOSUBS")
  := by
  have hdestination := hm.complete.destination_eq hr
  have hpush := Stack.push_of_limit_le hfull c'.pos
  apply execute_succ_of_error hrun _ rfl
  apply (step_eq_iff hnext).mpr
  exact Effect.gosubFull hdestination hpush

theorem execute_gosub_of_error (hnext : Cursor.next m.cursor = .ok (.keyword .gosubWord) c)
    (hr : s.Resolves c (.error f c')) (n : Nat) :
  m.execute (n + 1) = m.faultAt c c' f
  := by
  have hdestination := hm.complete.destination_eq hr
  apply execute_succ_of_error hrun _ (line?_of_resolves hr)
  apply (step_eq_iff hnext).mpr
  exact Effect.gosubFault hdestination

end Jump

/-- A machine that is reached has no labels or those of its source, and the latter once it has
been started with success.  If the labels of the source are at fault, it only ever reports this
fault and that it has stopped.  Where it runs and the next statement is a jump, it goes on after
the label that is named, in the visited line of the source that starts with it, or stops with
the fault of naming no such label and with nothing else changed. -/
theorem jumps_resolve (h : Reachable s m) :
  (m.labels = .empty ∨ ∃ c, Labels.build (s.cursor 0) = .ok m.labels c) ∧
  (¬ Idle m → ∃ c, Labels.build (s.cursor 0) = .ok m.labels c) ∧
  (∀ t c, Labels.build (s.cursor 0) = .ok t c → m.phase = .ready →
    ∀ n rs, ((m.execute n).2.performAll rs).2.labels = t) ∧
  (∀ f c, Labels.build (s.cursor 0) = .error f c →
    Fresh s m ∧
    (m.phase = .ready → ∀ n, m.execute n = (.fault f, { cursor := c, phase := .stopped })) ∧
    (m.phase = .stopped → ∀ n, m.execute n = (.stopped, m))) ∧
  (m.phase = .running → ∀ c n,
    (∃ r, s.Resolves c r) ∧
    (Cursor.next m.cursor = .ok (.keyword .gotoWord) c →
      (∀ a c', s.Resolves c (.ok a c') →
        m.execute (n + 1) = execute n { m with cursor := c'.jump a, statement := c.start }) ∧
      ∀ f c', s.Resolves c (.error f c') → m.execute (n + 1) = m.faultAt c c' f) ∧
    (Cursor.next m.cursor = .ok (.keyword .gosubWord) c →
      (∀ a c', s.Resolves c (.ok a c') → m.calls.size < Stack.limit →
        ∃ st, st.frames = c'.pos :: m.calls.frames ∧
          m.execute (n + 1) =
            execute n { m with cursor := c'.jump a, calls := st, statement := c.start }) ∧
      (∀ a c', s.Resolves c (.ok a c') → Stack.limit ≤ m.calls.size →
        m.execute (n + 1) = m.faultAt c c' (Fault.of .outOfMemory "TOO MANY GOSUBS")) ∧
      ∀ f c', s.Resolves c (.error f c') → m.execute (n + 1) = m.faultAt c c' f))
  := by
  have hm := fresh_or_built h
  refine ⟨?_, ?_, ?_, ?_, ?_⟩
  · apply hm.imp
    · apply Fresh.labels_eq
    · apply Built.build_eq
  · intro hidle
    apply (built_of_not_idle h hidle).build_eq
  · intro t c ht hready n rs
    have hsource : m.cursor.source = s := hm.elim Fresh.source_eq Built.source_eq
    rw [execute_of_build_eq_ok hsource hready ht]
    have hproceed := (invariant_built s).moves (moves_proceed rfl n) (built_of_build ht)
    apply ((invariant_built s).performAll hproceed rs).labels_eq ht
  · intro f c hf
    have hfresh : Fresh s m := by
      apply hm.resolve_right
      intro hbuilt
      obtain ⟨c', hc'⟩ := hbuilt.build_eq
      rw [hf] at hc'
      cases hc'
    refine ⟨hfresh, fun hready => hfresh.execute_of_build_eq_error hready hf, ?_⟩
    intro hstopped n
    rw [execute, hstopped]
  · intro hrun c n
    have hbuilt : Built s m := by
      apply built_of_not_idle h
      rw [Idle, hrun]
      rintro (hp | hp)
      all_goals contradiction
    refine ⟨⟨_, hbuilt.complete.resolves c⟩, ?_, ?_⟩
    · intro hnext
      exact ⟨fun a c' hr => execute_goto_of_ok hbuilt hrun hnext hr n,
        fun f c' hr => execute_goto_of_error hbuilt hrun hnext hr n⟩
    · intro hnext
      exact ⟨fun a c' hr hlt => execute_gosub_of_ok hbuilt hrun hnext hr hlt n,
        fun a c' hr hfull => execute_gosub_of_full hbuilt hrun hnext hr hfull n,
        fun f c' hr => execute_gosub_of_error hbuilt hrun hnext hr n⟩

/-- The machine after `n` statements of a program whose first jump leads to its second line and
whose second jump leads nowhere. -/
def jumping (n : Nat) : Machine :=
  ((ofString "GOTO 7\n7 GOSUB 8").performAll [.execute n]).2

theorem reachable_jumping (n : Nat) :
  Reachable (.ofString "GOTO 7\n7 GOSUB 8") (jumping n)
  := ⟨[.execute n], rfl⟩

/-- The program that jumps goes on in its second line and stops there, and a program whose labels
are at fault does not start. -/
theorem jumps_resolve_to_second_line :
  (∃ (c c' : Cursor) (a : Nat), (jumping 0).execute 1 =
    execute 0 { jumping 0 with cursor := c'.jump a, statement := c.start }) ∧
  (∃ c c', (jumping 1).execute 1 =
    (jumping 1).faultAt c c' (Fault.of .undefinedLabel "8")) ∧
  ∃ c, (ofString "7\n7").execute 9 =
    (.fault ((Fault.of .duplicateLabel "7").inLine 2), { cursor := c, phase := .stopped })
  := by
  have hrun : (jumping 0).phase = .running ∧ (jumping 1).phase = .running := by
    decide +kernel
  have hidle : ∀ n, (jumping n).phase = .running → ¬ Idle (jumping n) := by
    intro n hn
    rw [Idle, hn]
    decide
  and_intros
  · have hread : value? (Cursor.next (jumping 0).cursor) = some (.keyword .gotoWord) ∧
        value? (Reading.destination (jumping 0).labels
          (left (Cursor.next (jumping 0).cursor))) = some 8 := by
      decide +kernel
    have hnext := eq_ok_of_value? hread.1
    have hd := eq_ok_of_value? hread.2
    generalize left (Cursor.next (jumping 0).cursor) = c at hnext hd
    have hjumps := (jumps_resolve (reachable_jumping 0)).2.2.2.2 hrun.1 c 0
    have hbuilt := built_of_not_idle (reachable_jumping 0) (hidle 0 hrun.1)
    have hr := hbuilt.complete.resolves c
    rw [hd] at hr
    exact ⟨c, _, 8, (hjumps.2.1 hnext).1 8 _ hr⟩
  · have hread : value? (Cursor.next (jumping 1).cursor) = some (.keyword .gosubWord) ∧
        fault? (Reading.destination (jumping 1).labels
          (left (Cursor.next (jumping 1).cursor))) = some (Fault.of .undefinedLabel "8") := by
      decide +kernel
    have hnext := eq_ok_of_value? hread.1
    have hd := eq_error_of_fault? hread.2
    generalize left (Cursor.next (jumping 1).cursor) = c at hnext hd
    have hjumps := (jumps_resolve (reachable_jumping 1)).2.2.2.2 hrun.2 c 0
    have hbuilt := built_of_not_idle (reachable_jumping 1) (hidle 1 hrun.2)
    have hr := hbuilt.complete.resolves c
    rw [hd] at hr
    exact ⟨c, _, (hjumps.2.2 hnext).2.2 _ _ hr⟩
  · have hfault : fault? (Labels.build ((Source.ofString "7\n7").cursor 0)) =
        some ((Fault.of .duplicateLabel "7").inLine 2) := by
      decide +kernel
    have hnew : Reachable (.ofString "7\n7") (ofString "7\n7") := ⟨[], rfl⟩
    have hb := eq_error_of_fault? hfault
    exact ⟨_, ((jumps_resolve hnew).2.2.2.1 _ _ hb).2.1 rfl 9⟩

end Machine

end LineBasic
