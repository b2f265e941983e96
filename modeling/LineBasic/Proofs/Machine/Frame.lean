import LineBasic.Proofs.Machine.Effect
import LineBasic.Proofs.Reading

/-!
# What statements leave alone

No statement changes the source of a machine or its labels, and only `END` and `INPUT` change
its phase.  These two report an event, so that a statement that reports nothing leaves the
phase as it is.
-/

namespace LineBasic

open Program

namespace Machine

/-- The machines have the same source and the same labels. -/
structure SameProgram (m m' : Machine) : Prop where
  source_eq : m'.cursor.source = m.cursor.source
  labels_eq : m'.labels = m.labels

end Machine

namespace Execution

open Machine (SameProgram)

variable {t : Token} {m m' : Machine}

/-! ### Effects -/

/-- Statements read in the source of the machine, and jump within it. -/
theorem sameProgram_of_effect {r : EStateM.Result Fault Machine (Option Event)}
    (h : Effect t m r) :
  SameProgram m (left r)
  := by
  have hkept := Cursor.kept_sameSource
  cases h with
  | thenWord | toWord | number | delimiter | quoted | endOfLine => exact ⟨rfl, rfl⟩
  | endWord | endOfProgram => exact ⟨rfl, rfl⟩
  | back | backEmpty | enterRepeat | repeatsFull | repeatsEmpty => exact ⟨rfl, rfl⟩
  | assign h =>
    have hc := (Reading.keeps_assignment hkept).of_ok h
    exact ⟨hc, rfl⟩
  | assignFault h =>
    have hc := (Reading.keeps_assignment hkept).of_error h
    exact ⟨hc, rfl⟩
  | print h => exact ⟨(Reading.keeps_printed hkept).of_ok h, rfl⟩
  | printFault h => exact ⟨(Reading.keeps_printed hkept).of_error h, rfl⟩
  | input h => exact ⟨(Reading.keeps_request hkept).of_ok h, rfl⟩
  | inputFault h => exact ⟨(Reading.keeps_request hkept).of_error h, rfl⟩
  | goto h | gosub h | gosubFull h =>
    have hc := (Reading.keeps_destination hkept _).of_ok h
    exact ⟨hc, rfl⟩
  | gotoFault h | gosubFault h => exact ⟨(Reading.keeps_destination hkept _).of_error h, rfl⟩
  | branch h => exact ⟨(Reading.keeps_condition hkept).of_ok h, rfl⟩
  | branchFault h => exact ⟨(Reading.keeps_condition hkept).of_error h, rfl⟩
  | enterLoop h htarget | loopsFull h htarget =>
    have hc := (Reading.keeps_assignment hkept).of_ok h
    exact ⟨((Reading.keeps_target hkept).of_ok htarget).trans hc, rfl⟩
  | enterLoopFault h => exact ⟨(Reading.keeps_assignment hkept).of_error h, rfl⟩
  | targetFault h htarget =>
    have hc := (Reading.keeps_assignment hkept).of_ok h
    exact ⟨((Reading.keeps_target hkept).of_error htarget).trans hc, rfl⟩
  | leaveLoop h | nextTurn h | loopsEmpty h | nextTurnFull h =>
    have hc := (Reading.keeps_loopName hkept).of_ok h
    exact ⟨hc, rfl⟩
  | loopNameFault h => exact ⟨(Reading.keeps_loopName hkept).of_error h, rfl⟩
  | leaveRepeat _ h | repeatAgain _ h | repeatAgainFull _ h =>
    have hc := (Reading.keeps_expression hkept).of_ok h
    exact ⟨hc, rfl⟩
  | untilFault _ h => exact ⟨(Reading.keeps_expression hkept).of_error h, rfl⟩

/-- Only beginning a statement notes where it starts. -/
theorem statement_of_effect {r : EStateM.Result Fault Machine (Option Event)}
    (h : Effect t m r) :
  (left r).statement = m.statement
  := by
  cases h
  all_goals rfl

/-- A statement that reports nothing stays in its phase. -/
theorem phase_of_effect (h : Effect t m (.ok none m')) :
  m'.phase = m.phase
  := by
  cases h
  all_goals rfl

/-- No statement reports that the program runs on. -/
theorem event_of_effect {e? : Option Event} (h : Effect t m (.ok e? m')) :
  e? ≠ some .running
  := by
  cases h
  all_goals
    intro he
    cases he

/-! ### Steps -/

/-- No step changes the source or the labels. -/
theorem sameProgram_step (m : Machine) :
  SameProgram m (left (step m))
  := by
  have hkept := Cursor.kept_sameSource
  cases h : Cursor.next m.cursor with
  | ok t c =>
    have heffect := sameProgram_of_effect (effect_step h)
    exact ⟨heffect.source_eq.trans (hkept.next.of_ok h), heffect.labels_eq⟩
  | error f c =>
    rw [step_of_next_error h]
    exact ⟨hkept.next.of_error h, rfl⟩

/-- A step that ends with a value is an effect of its first token. -/
theorem exists_effect_of_step {e? : Option Event} (h : step m = .ok e? m') :
  ∃ t c, Effect t { m with cursor := c, statement := c.start } (.ok e? m')
  := by
  cases hnext : Cursor.next m.cursor with
  | ok t c => exact ⟨t, c, (step_eq_iff hnext).mp h⟩
  | error f c =>
    rw [step_of_next_error hnext] at h
    cases h

/-- A step that reports nothing stays in its phase. -/
theorem phase_of_step (h : step m = .ok none m') :
  m'.phase = m.phase
  := by
  obtain ⟨t, c, heffect⟩ := exists_effect_of_step h
  have hphase := phase_of_effect heffect
  exact hphase

/-- No step reports that the program runs on. -/
theorem event_of_step {e? : Option Event} (h : step m = .ok e? m') :
  e? ≠ some .running
  := by
  obtain ⟨t, c, heffect⟩ := exists_effect_of_step h
  exact event_of_effect heffect

end Execution

end LineBasic
