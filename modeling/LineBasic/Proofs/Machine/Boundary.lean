import LineBasic.Proofs.Cursor.Boundary
import LineBasic.Proofs.Machine.Effect
import LineBasic.Proofs.Machine.Restart
import LineBasic.Proofs.Stack

/-!
# Where machines go on

A machine goes on at its cursor, and when it jumps at the offset of a label or at one that it
has put on a stack.  All of these are boundaries of tokens, whatever has been asked of the
machine: offsets are saved only when something has been read up to them, labels are noted after
the number at the start of a line, and reading, giving back and skipping lead from boundary to
boundary.
-/

namespace LineBasic

open Program

namespace Machine

open Execution

/-- An offset at which the machine goes on, now or when it jumps. -/
inductive ResumesAt (m : Machine) : Nat → Prop
  | cursor : ResumesAt m m.cursor.pos
  | label {label : String} {a : Nat} (h : m.labels.get? label = some a) : ResumesAt m a
  | call {a : Nat} (h : a ∈ m.calls.frames) : ResumesAt m a
  | loop {l : Loop} (h : l ∈ m.loops.frames) : ResumesAt m l.body
  | repeated {a : Nat} (h : a ∈ m.repeats.frames) : ResumesAt m a

/-- A slot that the machine fills later, when it counts a loop or when a number is entered. -/
inductive Fills (m : Machine) : Slot → Prop
  | loop {l : Loop} (h : l ∈ m.loops.frames) : Fills m l.slot
  | request {prompt : String} {i : Slot} (h : m.phase = .awaiting prompt i) : Fills m i

/-- A machine of a source with a settled cursor that has saved boundaries only. -/
structure Settled (s : Source) (m : Machine) : Prop where
  cursor : Cursor.Settled s m.cursor
  labels : ∀ label a, m.labels.get? label = some a → s.Boundary a
  loops : ∀ l ∈ m.loops.frames, s.Boundary l.body
  repeats : ∀ a ∈ m.repeats.frames, s.Boundary a
  calls : ∀ a ∈ m.calls.frames, s.Boundary a

variable {s : Source} {m : Machine} {c : Cursor}

/-- Settled machines go on at boundaries. -/
theorem Settled.boundary {a : Nat} (hm : Settled s m) (ha : m.ResumesAt a) :
  s.Boundary a
  := by
  cases ha with
  | cursor => apply hm.cursor.pos
  | label h => apply hm.labels _ _ h
  | call h => apply hm.calls _ h
  | loop h => apply hm.loops _ h
  | repeated h => apply hm.repeats _ h

/-! ### Statements lead from boundary to boundary -/

/-- A machine stays settled when its cursor does; memory, the phase and the note of the statement
do not matter. -/
theorem Settled.moved (hm : Settled s m) (hc : Cursor.Settled s c) (p : Phase) (v : Memory)
    (n : Nat) :
  Settled s { m with cursor := c, phase := p, memory := v, statement := n }
  := ⟨hc, hm.labels, hm.loops, hm.repeats, hm.calls⟩

/-- The destination of a jump is a boundary. -/
theorem Settled.destination {a : Nat} (hm : Settled s m)
    (h : Reading.destination m.labels m.cursor = .ok a c) :
  Cursor.Settled s (c.jump a)
  := by
  obtain ⟨label, hnext, hget⟩ := Reading.destination_eq_ok_iff.mp h
  apply Cursor.settled_jump (hm.cursor.next hnext).source_eq (hm.labels label a hget)

/-- Every effect of a statement leaves settled machines settled. -/
theorem Settled.effect {t : Token} {r : EStateM.Result Fault Machine (Option Event)}
    (hm : Settled s m) (h : Effect t m r) :
  Settled s (left r)
  := by
  have hkept := Cursor.kept_staysSettled s
  have hcursor := hm.cursor
  have hsource := hcursor.source_eq
  cases h with
  | thenWord | toWord | number | delimiter | quoted | endOfLine => apply hm
  | endWord | endOfProgram => apply hm.moved hcursor
  | assign h => apply hm.moved ((Reading.keeps_assignment hkept).of_ok h hcursor.pushBack)
  | assignFault h => apply hm.moved ((Reading.keeps_assignment hkept).of_error h hcursor.pushBack)
  | print h => apply hm.moved ((Reading.keeps_printed hkept).of_ok h hcursor)
  | printFault h => apply hm.moved ((Reading.keeps_printed hkept).of_error h hcursor)
  | input h => apply hm.moved ((Reading.keeps_request hkept).of_ok h hcursor)
  | inputFault h => apply hm.moved ((Reading.keeps_request hkept).of_error h hcursor)
  | goto h => apply hm.moved (hm.destination h)
  | gotoFault h => apply hm.moved ((Reading.keeps_destination hkept _).of_error h hcursor)
  | gosub h hpush =>
    have hc := (Reading.keeps_destination hkept _).of_ok h hcursor
    have hcalls := Stack.forall_of_push hm.calls hc.pos hpush
    exact ⟨hm.destination h, hm.labels, hm.loops, hm.repeats, hcalls⟩
  | gosubFault h => apply hm.moved ((Reading.keeps_destination hkept _).of_error h hcursor)
  | gosubFull h => apply hm.moved ((Reading.keeps_destination hkept _).of_ok h hcursor)
  | back hpop =>
    obtain ⟨ha, hcalls⟩ := Stack.forall_of_pop hm.calls hpop
    exact ⟨Cursor.settled_jump hsource ha, hm.labels, hm.loops, hm.repeats, hcalls⟩
  | backEmpty => apply hm
  | branch h => apply hm.moved ((Reading.keeps_condition hkept).of_ok h hcursor)
  | branchFault h => apply hm.moved ((Reading.keeps_condition hkept).of_error h hcursor)
  | enterLoop h htarget hpush =>
    have hc := (Reading.keeps_assignment hkept).of_ok h hcursor
    have hc' := (Reading.keeps_target hkept).of_ok htarget hc
    have hloops :=
      Stack.forall_of_push (P := fun l : Loop => s.Boundary l.body) hm.loops hc'.pos hpush
    exact ⟨hc', hm.labels, hloops, hm.repeats, hm.calls⟩
  | enterLoopFault h => apply hm.moved ((Reading.keeps_assignment hkept).of_error h hcursor)
  | targetFault h htarget =>
    have hc := (Reading.keeps_assignment hkept).of_ok h hcursor
    apply hm.moved ((Reading.keeps_target hkept).of_error htarget hc)
  | loopsFull h htarget =>
    have hc := (Reading.keeps_assignment hkept).of_ok h hcursor
    apply hm.moved ((Reading.keeps_target hkept).of_ok htarget hc)
  | leaveLoop h hpop =>
    have hc := (Reading.keeps_loopName hkept).of_ok h hcursor
    obtain ⟨-, hloops⟩ := Stack.forall_of_pop hm.loops hpop
    exact ⟨hc, hm.labels, hloops, hm.repeats, hm.calls⟩
  | nextTurn h hpop _ hpush =>
    have hc := (Reading.keeps_loopName hkept).of_ok h hcursor
    obtain ⟨hbody, hrest⟩ := Stack.forall_of_pop hm.loops hpop
    have hloops := Stack.forall_of_push hrest hbody hpush
    exact ⟨Cursor.settled_jump hc.source_eq hbody, hm.labels, hloops, hm.repeats, hm.calls⟩
  | loopNameFault h => apply hm.moved ((Reading.keeps_loopName hkept).of_error h hcursor)
  | loopsEmpty h => apply hm.moved ((Reading.keeps_loopName hkept).of_ok h hcursor)
  | nextTurnFull h hpop =>
    have hc := (Reading.keeps_loopName hkept).of_ok h hcursor
    obtain ⟨-, hloops⟩ := Stack.forall_of_pop hm.loops hpop
    exact ⟨hc, hm.labels, hloops, hm.repeats, hm.calls⟩
  | enterRepeat hpush =>
    have hrepeats := Stack.forall_of_push hm.repeats hcursor.pos hpush
    exact ⟨hcursor, hm.labels, hm.loops, hrepeats, hm.calls⟩
  | repeatsFull => apply hm
  | leaveRepeat hpop h =>
    have hc := (Reading.keeps_expression hkept).of_ok h hcursor
    obtain ⟨-, hrepeats⟩ := Stack.forall_of_pop hm.repeats hpop
    exact ⟨hc, hm.labels, hm.loops, hrepeats, hm.calls⟩
  | repeatAgain hpop h _ hpush =>
    have hc := (Reading.keeps_expression hkept).of_ok h hcursor
    obtain ⟨hbody, hrest⟩ := Stack.forall_of_pop hm.repeats hpop
    have hrepeats := Stack.forall_of_push hrest hbody hpush
    exact ⟨Cursor.settled_jump hc.source_eq hbody, hm.labels, hm.loops, hrepeats, hm.calls⟩
  | repeatsEmpty => apply hm
  | untilFault hpop h =>
    have hc := (Reading.keeps_expression hkept).of_error h hcursor
    obtain ⟨-, hrepeats⟩ := Stack.forall_of_pop hm.repeats hpop
    exact ⟨hc, hm.labels, hm.loops, hrepeats, hm.calls⟩
  | repeatAgainFull hpop h =>
    have hc := (Reading.keeps_expression hkept).of_ok h hcursor
    obtain ⟨-, hrepeats⟩ := Stack.forall_of_pop hm.repeats hpop
    exact ⟨hc, hm.labels, hm.loops, hrepeats, hm.calls⟩

/-! ### Labels and starts -/

/-- Labels end at boundaries. -/
theorem boundary_of_build {t : Labels} {c' : Cursor} (hs : c.source = s)
    (h : Labels.build c = .ok t c') (label : String) (a : Nat) (hget : t.get? label = some a) :
  s.Boundary a
  := by
  have hverdict := Labels.verdict_build c
  rw [h, hs] at hverdict
  obtain ⟨b, hb, d, hnext, rfl⟩ := (hverdict.get?_eq label a).mp hget
  exact ((Source.reached_start hb.start).next hnext rfl).boundary

/-- The text starts at a boundary. -/
theorem settled_first (s : Source) :
  Cursor.Settled s { source := s }
  := by
  apply Cursor.settled_jump (c := { source := s }) rfl
  exact (Source.reached_start Line.Start.first).boundary

theorem settled_ofSource (s : Source) :
  Settled s (ofSource s)
  where
  cursor := settled_first s
  labels label a h := by
    rw [ofSource, Labels.get?_empty] at h
    contradiction
  loops _ h := absurd h List.not_mem_nil
  repeats _ h := absurd h List.not_mem_nil
  calls _ h := absurd h List.not_mem_nil

/-- Being settled is an invariant. -/
theorem invariant_settled (s : Source) :
  Invariant (Settled s)
  where
  step m hm := by
    have hkept := Cursor.kept_staysSettled s
    cases h : Cursor.next m.cursor with
    | ok t c =>
      have hbegun := hm.moved (hm.cursor.next h) m.phase m.memory c.start
      apply hbegun.effect (effect_step h)
    | error f c =>
      rw [step_of_next_error h]
      apply hm.moved (hkept.next.of_error h hm.cursor)
  start m hm := by
    have hsource := hm.cursor.source_eq
    cases h : Labels.build m.cursor with
    | ok t c =>
      rw [start_of_build_eq_ok h, hsource]
      have hstart := settled_ofSource s
      exact ⟨hstart.cursor, boundary_of_build hsource h, hstart.loops, hstart.repeats,
        hstart.calls⟩
    | error f c =>
      rw [start_of_build_eq_error h]
      have hstart := settled_ofSource s
      have hjump : Cursor.Settled s (m.cursor.jump 0) :=
        Cursor.settled_jump hsource hstart.cursor.pos
      have hc := Labels.of_build_eq_error (Cursor.kept_staysSettled s) h hjump
      exact ⟨hc, hm.labels, hstart.loops, hstart.repeats, hstart.calls⟩
  resume m p v hm := hm.moved hm.cursor p v m.statement

/-! ### Reachable machines -/

theorem Reachable.settled (h : Reachable s m) :
  Settled s m
  := by
  obtain ⟨rs, rfl⟩ := h
  apply (invariant_settled s).performAll (settled_ofSource s)

/-- Whatever has been asked of a machine, the offsets at which it goes on, now or when it jumps,
are boundaries within the source and not inside a token.  The token that can be given back is not
longer than the text before the cursor, and every slot that is saved is in memory, as the slot of
a name is how far its first letter is from `A`. -/
theorem resumes_between_tokens (s : Source) (rs : List Request) :
  (∀ a, ((ofSource s).performAll rs).2.ResumesAt a →
    a ≤ s.size ∧ s.Boundary a ∧ ¬ s.Inside a) ∧
  ((ofSource s).performAll rs).2.cursor.last ≤ ((ofSource s).performAll rs).2.cursor.pos ∧
  (∀ i, ((ofSource s).performAll rs).2.Fills i → i.val < 26) ∧
  ∀ name i, Slot.ofName? name = some i →
    ∃ c r, name.toList = c :: r ∧ c.toUpper.toNat = 'A'.toNat + i.val
  := by
  have hsettled := (invariant_settled s).performAll (settled_ofSource s) rs
  refine ⟨?_, hsettled.cursor.last_le, fun i _ => i.isLt, fun name i => Slot.letter_of_ofName?⟩
  intro a ha
  have hboundary := hsettled.boundary ha
  exact ⟨hboundary.le_size, hboundary, hboundary.not_inside⟩

/-- The offsets that a program has saved in a subroutine, where it has entered two loops. -/
theorem resumes_between_tokens_in_loops :
  ∀ a ∈ [7, 9, 25, 31], a ≤ (Source.ofString "GOSUB 8\n8 FOR A = 1 TO 2 REPEAT").size ∧
    (Source.ofString "GOSUB 8\n8 FOR A = 1 TO 2 REPEAT").Boundary a ∧
    ¬ (Source.ofString "GOSUB 8\n8 FOR A = 1 TO 2 REPEAT").Inside a
  := by
  have hsaved := resumes_between_tokens (.ofString "GOSUB 8\n8 FOR A = 1 TO 2 REPEAT") [.execute 3]
  generalize hm : (performAll [.execute 3]
    (ofSource (.ofString "GOSUB 8\n8 FOR A = 1 TO 2 REPEAT"))).2 = m at hsaved
  have hframes : m.calls.frames = [7] ∧ m.labels.get? "8" = some 9 ∧
      m.loops.frames.map Loop.body = [25] ∧ m.repeats.frames = [31] := by
    rw [← hm]
    decide +kernel
  obtain ⟨hcalls, hlabel, hloops, hrepeats⟩ := hframes
  obtain ⟨l, hl, hbody⟩ : ∃ l ∈ m.loops.frames, l.body = 25 := by
    rw [← List.mem_map, hloops]
    apply List.mem_singleton_self
  intro a ha
  apply hsaved.1
  simp only [List.mem_cons, List.not_mem_nil, or_false] at ha
  rcases ha with rfl | rfl | rfl | rfl
  · apply ResumesAt.call
    rw [hcalls]
    apply List.mem_singleton_self
  · apply ResumesAt.label hlabel
  · rw [← hbody]
    apply ResumesAt.loop hl
  · apply ResumesAt.repeated
    rw [hrepeats]
    apply List.mem_singleton_self

end Machine

end LineBasic
