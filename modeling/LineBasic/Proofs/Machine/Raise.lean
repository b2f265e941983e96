import LineBasic.Proofs.Machine.Fault
import LineBasic.Proofs.Machine.Writing
import LineBasic.Proofs.Reading.Raise

/-!
# The faults of statements

A statement ends in faults of its own kinds only, which its first token tells.  A name with which a
statement starts is read again as the same name once it has been given back, so that an assignment
does not miss its variable; and a frame that has been popped can be pushed again, so that the
statements that end loops do not run out of memory.  A fault that is reported is that of a
statement, of the labels when the program starts, or of input that has ended.
-/

namespace LineBasic

open Program
open Reading (evaluationFaults)

/-- The kinds of fault in which a statement can end that starts with a keyword. -/
def Keyword.faults : Keyword → List Fault.Kind
  | printWord => Rule.faults
  | inputWord => [.badSyntax, .notAVariable, .missingClosingQuote]
  | gotoWord => [.undefinedLabel, .missingClosingQuote]
  | gosubWord => [.undefinedLabel, .missingClosingQuote, .outOfMemory]
  | returnWord => [.returnWithoutGosub]
  | ifWord => .thenExpected :: evaluationFaults
  | forWord =>
    [.notAVariable, .equalSignExpected, .toExpected, .outOfMemory] ++ evaluationFaults
  | nextWord => [.nextWithoutFor, .missingClosingQuote]
  | repeatWord => [.outOfMemory]
  | untilWord => .nextWithoutFor :: evaluationFaults
  | endWord | thenWord | toWord => []

/-- The kinds of fault in which a statement can end of which the first token has been read. -/
def Token.faults : Token → List Fault.Kind
  | name _ => .equalSignExpected :: evaluationFaults
  | keyword k => k.faults
  | number _ | delimiter _ | quoted _ | endOfLine | endOfProgram => []

namespace Machine

open Execution

variable {s : Source} {m m' : Machine} {f : Fault} {n : Nat}

/-! ### Faults of one statement -/

/-- A statement raises no fault but those that its first token tells. -/
theorem mem_faults_of_effect {t : Token} {c : Cursor} (hm : Bounded m)
    (hnext : Cursor.next c = .ok t m.cursor) (h : Effect t m (.error f m')) :
  f.kind ∈ t.faults
  := by
  cases h with
  | @assignFault s _ _ _ h =>
    have hback := Cursor.next_pushBack hnext
    have hraises :=
      Reading.raises_assignment_of_next (v := m.memory) hback (.inl ⟨s, rfl⟩) (List.Subset.refl _)
    exact hraises.mem_of_error h
  | printFault h => exact Reading.raises_printed.mem_of_error h
  | inputFault h => exact Reading.raises_request.mem_of_error h
  | gotoFault h => exact (Reading.raises_destination _).mem_of_error h
  | gosubFault h => exact ((Reading.raises_destination _).mono (by decide)).mem_of_error h
  | branchFault h => exact Reading.raises_condition.mem_of_error h
  | enterLoopFault h => exact (Reading.raises_assignment.mono (by decide)).mem_of_error h
  | targetFault _ htarget => exact (Reading.raises_target.mono (by decide)).mem_of_error htarget
  | loopNameFault h => exact (Reading.raises_loopName.mono (by decide)).mem_of_error h
  | untilFault _ h => exact (Reading.raises_expression.mono (by decide)).mem_of_error h
  | gosubFull _ hpush | loopsFull _ _ hpush | repeatsFull hpush =>
    obtain ⟨-, rfl⟩ := Stack.push_eq_error_iff.mp hpush
    decide
  | backEmpty hpop | loopsEmpty _ hpop | repeatsEmpty hpop =>
    obtain ⟨-, rfl⟩ := Stack.pop_eq_error_iff.mp hpop
    decide
  | nextTurnFull _ hpop _ hpush => exact absurd hpush (Stack.push_ne_error_of_pop hm.loops hpop)
  | repeatAgainFull hpop _ _ hpush =>
    exact absurd hpush (Stack.push_ne_error_of_pop hm.repeats hpop)

/-- The kinds of fault in which the next statement of the machine can end: its first token cannot be
read, or tells the kind. -/
inductive Raises (m : Machine) : Fault.Kind → Prop
  | unread {f : Fault} {c : Cursor} (hnext : Cursor.next m.cursor = .error f c) :
    Raises m .missingClosingQuote
  | statement {t : Token} {c : Cursor} {k : Fault.Kind} (hnext : Cursor.next m.cursor = .ok t c)
    (hk : k ∈ t.faults) : Raises m k

theorem raises_of_step (hm : Bounded m) (h : step m = .error f m') :
  m.Raises f.kind
  := by
  cases hnext : Cursor.next m.cursor with
  | error f' c =>
    rw [step_of_next_error hnext] at h
    cases h
    rw [Reading.kind_of_next hnext]
    exact .unread hnext
  | ok t c =>
    have heffect := effect_step hnext
    rw [h] at heffect
    have hbounded : Bounded { m with cursor := c, statement := c.start } :=
      ⟨hm.loops, hm.repeats, hm.calls⟩
    exact .statement hnext (mem_faults_of_effect hbounded hnext heffect)

/-! ### Faults that are reported -/

/-- What a fault is reported on account of, and its kind: a line whose label is at fault when the
program starts, one of up to `n` statements, or input that has ended where `INPUT` has asked for
it. -/
inductive Reported (s : Source) (n : Nat) (m : Machine) (f : Fault) : Prop
  | start {b : Nat} (hready : m.phase = .ready) (hb : s.Visited b) (hf : s.Offends b f)
    (hkind : f.kind = .duplicateLabel ∨ f.kind = .missingClosingQuote)
  | statement {k l : Nat} {m₁ m₂ : Machine} {f₁ : Fault} (hk : k < n)
    (hrun : m.execute k = (.running, m₁)) (hstep : step m₁ = .error f₁ m₂) (hf : f = f₁.inLine l)
    (hkind : m₁.Raises f.kind)
  | input {m₀ m₁ : Machine} {prompt : String} (hreach : Reachable s m₀)
    (hstep : step m₀ = .ok (some (.input prompt)) m₁) (hend : m = m₁.endOfInput)
    (hkind : f.kind = .inputUnreadable)

/-- A fault is reported with the kind that belongs to what it is reported on account of. -/
theorem reported_of_execute (h : Reachable s m) (hf : m.execute n = (.fault f, m')) :
  Reported s n m f
  := by
  obtain ⟨a, hfails, -⟩ := failsAt_of_execute h hf
  cases hfails with
  | label hready hb hoffends =>
    apply Reported.start hready hb hoffends
    cases hoffends with
    | unclosed => exact .inr rfl
    | repeated => exact .inl rfl
  | statement hk hrun hstep =>
    have hraises := raises_of_step (h.execute hrun).bounded hstep
    exact .statement hk hrun hstep rfl hraises
  | request hreach hstep hend => exact .input hreach hstep hend rfl

/-- Every fault that is reported is one of the kinds that the labels, the first token of a statement
or the end of input tell, and so is every fault in which a statement ends.  Evaluation misses an
expression where the next token ends a line or the program, and nowhere else, and it ends in no
fault but those of expressions; it never comes upon a name without a slot, since no such name is
read. -/
theorem statements_raise_own_faults (h : Reachable s m) :
  (∀ n f m', m.execute n = (.fault f, m') → Reported s n m f) ∧
  (∀ f m', step m = .error f m' → m.Raises f.kind) ∧
  (∀ v c, (∃ f c', Reading.evaluate v c = .error f c' ∧ f.kind = .noExpression) ↔
    ∃ t c', Cursor.next c = .ok t c' ∧ t.isEnd = true) ∧
  (∀ v c f c', Reading.evaluate v c = .error f c' → f.kind ∈ evaluationFaults) ∧
  ∀ c name c', Cursor.next c = .ok (.name name) c' → (Slot.ofName? name).isSome
  := by
  and_intros
  · intro n f m' hf
    apply reported_of_execute h hf
  · intro f m' hstep
    apply raises_of_step h.bounded hstep
  · intro v c
    apply Reading.evaluate_noExpression_iff
  · intro v c f c' heval
    exact Reading.raises_evaluate.mem_of_error heval
  · intro c name c' hnext
    apply Cursor.isSome_slot_of_next hnext

/-- A program that divides by zero in the condition of its loop. -/
theorem statements_raise_own_faults_of_division :
  ∃ f m', (ofString "REPEAT A = 1 UNTIL A / 0").execute 9 = (.fault f, m') ∧
    f.kind = .divisionByZero ∧
    Reported (.ofString "REPEAT A = 1 UNTIL A / 0") 9 (ofString "REPEAT A = 1 UNTIL A / 0") f
  := by
  have hnew : Reachable (.ofString "REPEAT A = 1 UNTIL A / 0")
      (ofString "REPEAT A = 1 UNTIL A / 0") := reachable_ofSource _
  have hevent : ((ofString "REPEAT A = 1 UNTIL A / 0").execute 9).1 =
      .fault ⟨.divisionByZero, some 1, ""⟩ := by
    decide +kernel
  generalize hx : (ofString "REPEAT A = 1 UNTIL A / 0").execute 9 = x at hevent
  obtain ⟨_, m'⟩ := x
  obtain rfl := hevent
  exact ⟨_, m', rfl, rfl, (statements_raise_own_faults hnew).1 _ _ _ hx⟩

end Machine

end LineBasic
