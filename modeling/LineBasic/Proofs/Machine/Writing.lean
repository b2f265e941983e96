import LineBasic.Proofs.Machine.Answer
import LineBasic.Proofs.Machine.Nesting

/-!
# Writing to memory

Only assignments, `FOR`, `NEXT` and answers write to memory, each of them one number to one slot,
and a start clears it.  An assignment writes when all of it has been read, and so does an answer;
`FOR` writes before it has read what its variable counts to, so that it has written also if it ends
in a fault after that.  A `NEXT` that finds a loop cannot fail, as the loop has been taken from a
stack that then has room for it.
-/

namespace LineBasic

open Program
open Cursor (Reads)
open Relation (ReflTransGen)

/-- The second memory holds the number in the slot, and is like the first one everywhere else. -/
structure Memory.Sets (v : Memory) (i : Slot) (x : Float) (v' : Memory) : Prop where
  fetch_eq : v'.fetch i = x
  fetch_of_ne : ∀ j, j ≠ i → v'.fetch j = v.fetch j

theorem Memory.sets_store (v : Memory) (i : Slot) (x : Float) :
  v.Sets i x (v.store i x)
  where
  fetch_eq := by
    rw [fetch_store, if_pos rfl]
  fetch_of_ne j hj := by
    rw [fetch_store, if_neg (Ne.symm hj)]

namespace Machine

open Execution

variable {s : Source} {m m' : Machine} {i : Slot} {x : Float}

/-! ### Stacks have room -/

/-- No stack has more frames than it can hold. -/
structure Bounded (m : Machine) : Prop where
  loops : m.loops.size ≤ Stack.limit
  repeats : m.repeats.size ≤ Stack.limit
  calls : m.calls.size ≤ Stack.limit

theorem Reachable.bounded (h : Reachable s m) :
  Bounded m
  := by
  apply h.induction
  · exact ⟨Nat.zero_le _, Nat.zero_le _, Nat.zero_le _⟩
  · intro m m' _ hm hmove
    have hshifted := allShifted_of_move hmove
    exact ⟨hshifted.loops.size_le_limit hm.loops, hshifted.repeats.size_le_limit hm.repeats,
      hshifted.calls.size_le_limit hm.calls⟩

/-! ### Statements that write -/

/-- The next statement of the machine writes the number to the slot: an assignment its value, `FOR`
the first number of its variable, or `NEXT` the next number of the variable of the loop that was
entered last. -/
inductive Writes (m : Machine) : Slot → Float → Prop
  | assigned {name : String} {i : Slot} {x : Float} {c c' : Cursor}
    (hreads : Reads m.cursor [.name name, .delimiter .equal] c)
    (hslot : Slot.ofName? name = some i) (hx : Reading.expression m.memory c = .ok x c') :
    Writes m i x
  | first {name : String} {i : Slot} {x : Float} {c c' : Cursor}
    (hreads : Reads m.cursor [.keyword .forWord, .name name, .delimiter .equal] c)
    (hslot : Slot.ofName? name = some i) (hx : Reading.expression m.memory c = .ok x c') :
    Writes m i x
  | counted {t : Token} {c : Cursor} {l : Loop} {ls : List Loop}
    (hreads : Reads m.cursor [.keyword .nextWord, t] c) (hloops : m.loops.frames = l :: ls) :
    Writes m l.slot (m.memory.fetch l.slot + 1.0)

/-- A statement that writes to memory does so. -/
theorem memory_of_writes (h : m.Writes i x) :
  (left (step m)).memory = m.memory.store i x
  := by
  cases h with
  | @assigned name _ _ d d' hreads hslot hx =>
    obtain ⟨c, hnext, -⟩ := Cursor.reads_cons_iff.mp hreads
    have hassignment := Reading.assignment_eq_ok_iff.mpr
      ⟨name, d, (Cursor.reads_pushBack_iff hnext (List.cons_ne_nil _ _)).mpr hreads, hslot, hx⟩
    have hstep := (step_eq_iff hnext).mpr (.assign hassignment)
    rw [hstep]
    rfl
  | @first name _ _ d d' hreads hslot hx =>
    obtain ⟨c, hnext, hreads⟩ := Cursor.reads_cons_iff.mp hreads
    have hassignment := Reading.assignment_eq_ok_iff.mpr ⟨name, d, hreads, hslot, hx⟩
    have heffect := effect_step hnext
    generalize step m = r at heffect
    cases heffect with
    | enterLoop h | targetFault h | loopsFull h =>
      cases hassignment.symm.trans h
      rfl
    | enterLoopFault h => cases hassignment.symm.trans h
  | @counted t d l ls hreads hloops =>
    obtain ⟨c, hnext, hreads⟩ := Cursor.reads_cons_iff.mp hreads
    have hname := Reading.loopName_of_next (Cursor.reads_singleton_iff.mp hreads)
    have heffect := effect_step hnext
    generalize step m = r at heffect
    cases heffect with
    | leaveLoop _ hpop | nextTurn _ hpop | nextTurnFull _ hpop =>
      cases hloops.symm.trans (Stack.pop_eq_ok_iff.mp hpop)
      rfl
    | loopNameFault h => cases hname.symm.trans h
    | loopsEmpty _ hpop =>
      cases hloops.symm.trans (Stack.pop_eq_error_iff.mp hpop).1

/-- A name that is followed by what an assignment needs is one that writes. -/
theorem writes_of_assignment {name : String} {c c' : Cursor}
    (hnext : Cursor.next m.cursor = .ok (.name name) c)
    (h : Reading.assignment m.memory c.pushBack = .ok (i, x) c') :
  m.Writes i x
  := by
  obtain ⟨name', d, hreads, hslot, hx⟩ := Reading.assignment_eq_ok_iff.mp h
  rw [Cursor.reads_pushBack_iff hnext (List.cons_ne_nil _ _)] at hreads
  exact .assigned hreads hslot hx

theorem writes_of_for {c c' : Cursor} (hnext : Cursor.next m.cursor = .ok (.keyword .forWord) c)
    (h : Reading.assignment m.memory c = .ok (i, x) c') :
  m.Writes i x
  := by
  obtain ⟨name, d, hreads, hslot, hx⟩ := Reading.assignment_eq_ok_iff.mp h
  exact .first (.cons hnext hreads) hslot hx

theorem writes_of_next {c c' : Cursor} {l : Loop} {st : Stack .loops Loop}
    (hnext : Cursor.next m.cursor = .ok (.keyword .nextWord) c)
    (h : Reading.loopName c = .ok () c') (hpop : m.loops.pop = .ok (l, st)) :
  m.Writes l.slot (m.memory.fetch l.slot + 1.0)
  := by
  have hloops := Stack.pop_eq_ok_iff.mp hpop
  cases hname : Cursor.next c with
  | ok t d => exact .counted (.cons hnext (.cons hname (.nil d))) hloops
  | error f d => cases h.symm.trans (Reading.loopName_of_error hname)

/-- Every other statement leaves memory alone. -/
theorem memory_of_not_writes (h : ∀ i x, ¬ m.Writes i x) :
  (left (step m)).memory = m.memory
  := by
  cases hnext : Cursor.next m.cursor with
  | error f c =>
    rw [step_of_next_error hnext]
    rfl
  | ok t c =>
    have heffect := effect_step hnext
    generalize step m = r at heffect
    cases heffect with
    | assign hread => exact absurd (writes_of_assignment hnext hread) (h _ _)
    | enterLoop hread | targetFault hread | loopsFull hread =>
      exact absurd (writes_of_for hnext hread) (h _ _)
    | leaveLoop hread hpop | nextTurn hread hpop | nextTurnFull hread hpop =>
      exact absurd (writes_of_next hnext hread hpop) (h _ _)
    | _ => rfl

/-- Of the statements that end in a fault only `FOR` may have written. -/
theorem memory_of_fault {f : Fault} (hm : Bounded m) (hstep : step m = .error f m')
    (hfor : ¬ m.Begins .forWord) :
  m'.memory = m.memory
  := by
  cases hnext : Cursor.next m.cursor with
  | error f' c =>
    rw [step_of_next_error hnext] at hstep
    cases hstep
    rfl
  | ok t c =>
    have heffect := effect_step hnext
    rw [hstep] at heffect
    cases heffect with
    | targetFault | loopsFull => exact absurd ⟨c, hnext⟩ hfor
    | nextTurnFull _ hpop _ hpush =>
      have hroom := Stack.lt_limit_of_pop hm.loops hpop
      have hfull := (Stack.push_eq_error_iff.mp hpush).1
      exact absurd hroom (Nat.not_lt_of_le hfull)
    | _ => rfl

/-! ### Requests -/

theorem memory_of_start (hready : m.phase = .ready) :
  (m.execute 0).2.memory = .zero
  := by
  cases hstart : start m with
  | ok _ m' =>
    rw [execute_of_start_ok hready hstart]
    cases hbuild : Labels.build m.cursor with
    | ok t c =>
      cases hstart.symm.trans (start_of_build_eq_ok hbuild)
      rfl
    | error f c => cases hstart.symm.trans (start_of_build_eq_error hbuild)
  | error f m' =>
    rw [execute_of_start_error hready hstart]
    cases hbuild : Labels.build m.cursor with
    | ok t c => cases hstart.symm.trans (start_of_build_eq_ok hbuild)
    | error f c =>
      cases hstart.symm.trans (start_of_build_eq_error hbuild)
      rfl

theorem memory_of_ne_ready (hready : m.phase ≠ .ready) :
  (m.execute 0).2.memory = m.memory
  := by
  rw [execute]
  split
  · contradiction
  all_goals rfl

/-- What is entered is stored if it is a number and has been asked for. -/
theorem memory_of_entered {prompt line : String} (h : m.phase = .awaiting prompt i)
    (hx : Number.ofChars? (trimmed line.toList) = some x) :
  (m.enter line).memory = m.memory.store i x
  := by
  rw [enter, h]
  simp only [hx]

theorem memory_of_not_entered {line : String}
    (h : ∀ prompt i x, m.phase = .awaiting prompt i →
      Number.ofChars? (trimmed line.toList) ≠ some x) :
  (m.enter line).memory = m.memory
  := by
  rw [enter]
  split
  · next prompt i hphase =>
    cases hx : Number.ofChars? (trimmed line.toList) with
    | some x => exact absurd hx (h prompt i x hphase)
    | none => rfl
  · rfl

theorem memory_of_endOfInput (m : Machine) :
  m.endOfInput.memory = m.memory
  := by
  rw [endOfInput]
  split
  all_goals rfl

theorem memory_of_interrupt (m : Machine) :
  m.interrupt.memory = m.memory
  := by
  rw [interrupt]
  split
  all_goals rfl

/-- A machine comes to whatever is asked of it by statements and by requests that execute none.  A
statement that writes changes the one slot that it writes to, which for a name is the one of its
first letter.  Every other statement leaves memory alone, and so does every one that ends in a
fault, unless it is a `FOR`.  Of the requests, a number that is entered where it is asked for
changes the slot of the variable, a start clears all slots, and everything else leaves memory
alone. -/
theorem memory_changes_where_written (h : Reachable s m) :
  (∀ rs, ReflTransGen Move m (m.performAll rs).2) ∧
  (∀ name i, Slot.ofName? name = some i →
    ∃ c r, name.toList = c :: r ∧ c.toUpper.toNat = 'A'.toNat + i.val) ∧
  (∀ i x, m.Writes i x → m.memory.Sets i x (left (step m)).memory) ∧
  ((∀ i x, ¬ m.Writes i x) → (left (step m)).memory = m.memory) ∧
  (∀ f m', step m = .error f m' → ¬ m.Begins .forWord → m'.memory = m.memory) ∧
  (∀ prompt i line x, m.phase = .awaiting prompt i →
    Number.ofChars? (trimmed line.toList) = some x → m.memory.Sets i x (m.enter line).memory) ∧
  (∀ line, (∀ prompt i x, m.phase = .awaiting prompt i →
    Number.ofChars? (trimmed line.toList) ≠ some x) → (m.enter line).memory = m.memory) ∧
  (m.phase = .ready → ∀ i, (m.execute 0).2.memory.fetch i = 0.0) ∧
  (m.phase ≠ .ready → (m.execute 0).2.memory = m.memory) ∧
  m.endOfInput.memory = m.memory ∧ m.interrupt.memory = m.memory ∧ m.restart.memory = m.memory
  := by
  refine ⟨fun rs => moves_performAll rs m, fun name i => Slot.letter_of_ofName?, ?_,
    memory_of_not_writes, ?_, ?_, ?_, ?_, memory_of_ne_ready, memory_of_endOfInput m,
    memory_of_interrupt m, rfl⟩
  · intro i x hwrites
    rw [memory_of_writes hwrites]
    apply Memory.sets_store
  · intro f m' hstep hfor
    apply memory_of_fault h.bounded hstep hfor
  · intro prompt i line x hphase hx
    rw [memory_of_entered hphase hx]
    apply Memory.sets_store
  · intro line
    apply memory_of_not_entered
  · intro hready i
    rw [memory_of_start hready]
    apply Memory.fetch_zero

/-- The machine that is about to execute a `FOR` without `TO`. -/
def unbounded : Machine :=
  ((ofString "FOR a = 1.5 2").performAll [.execute 0]).2

/-- The `FOR` ends in a fault, and has nevertheless written to the slot of its variable. -/
theorem memory_changes_where_written_in_failing_for :
  fault? (step unbounded) = some (Fault.of .toExpected) ∧
  unbounded.memory.Sets 0 1.5 (left (step unbounded)).memory
  := by
  have hreach : Reachable (.ofString "FOR a = 1.5 2") unbounded := ⟨[.execute 0], rfl⟩
  have hread : fault? (step unbounded) = some (Fault.of .toExpected) ∧
      value? (Cursor.next unbounded.cursor) = some (.keyword .forWord) ∧
      value? (Reading.assignment unbounded.memory (left (Cursor.next unbounded.cursor))) =
        some (0, 1.5) := by
    decide +kernel
  have hnext := eq_ok_of_value? hread.2.1
  have hassignment := eq_ok_of_value? hread.2.2
  refine ⟨hread.1, (memory_changes_where_written hreach).2.2.1 0 1.5 ?_⟩
  exact writes_of_for hnext hassignment

end Machine

end LineBasic
