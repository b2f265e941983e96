import LineBasic.Machine.Run
import LineBasic.Proofs.Machine.Frame
import LineBasic.Proofs.Reading.Alike
import LineBasic.Proofs.Stack
import Mathlib.Data.List.Forall2

/-!
# Machines in texts of the same sense

Two machines whose sources make the same sense run alike.  They hold the same numbers and are
in the same phase, and all the offsets that they remember correspond: those of their cursors
and statements, of their labels, and of the loops and callers on their stacks.  Since
corresponding offsets are in lines with the same number, even the faults that they report are
the same.
-/

namespace LineBasic

open Program
open Source (Places)

variable {s s' : Source}

/-! ### Stacks -/

namespace Stack

variable {role : Role} {α β : Type} {R : α → β → Prop}

/-- The stacks hold related frames. -/
def Alike (R : α → β → Prop) (st : Stack role α) (st' : Stack role β) : Prop :=
  List.Forall₂ R st.frames st'.frames

/-- Related results, or the same fault. -/
inductive Related (R : α → β → Prop) : Except Fault α → Except Fault β → Prop
  | ok {a : α} {b : β} : R a b → Related R (.ok a) (.ok b)
  | error (f : Fault) : Related R (.error f) (.error f)

theorem Alike.size_eq {st : Stack role α} {st' : Stack role β} (h : Alike R st st') :
  st.size = st'.size
  := by
  rw [st.size_eq, st'.size_eq]
  apply h.length_eq

/-- Related frames are pushed on both stacks or on none. -/
theorem Alike.push {st : Stack role α} {st' : Stack role β} (h : Alike R st st') {a : α} {b : β}
    (hab : R a b) :
  Related (Alike R) (st.push a) (st'.push b)
  := by
  have hsize := h.size_eq
  by_cases hfull : limit ≤ st.size
  · rw [push_of_limit_le hfull, push_of_limit_le (hsize ▸ hfull)]
    apply Related.error
  · have hlt := Nat.lt_of_not_le hfull
    rw [push_of_lt_limit hlt, push_of_lt_limit (hsize ▸ hlt)]
    apply Related.ok
    apply List.Forall₂.cons hab h

/-- Related frames are popped off both stacks or off none. -/
theorem Alike.pop {st : Stack role α} {st' : Stack role β} (h : Alike R st st') :
  Related (fun x x' => R x.1 x'.1 ∧ Alike R x.2 x'.2) st.pop st'.pop
  := by
  obtain ⟨as, n, hn⟩ := st
  obtain ⟨bs, n', hn'⟩ := st'
  cases h with
  | nil => apply Related.error
  | cons hab hrest => apply Related.ok ⟨hab, hrest⟩

end Stack

/-- Loops with the same variable that count to the same number, with bodies at corresponding
places. -/
structure Loop.Alike (s s' : Source) (l l' : Loop) : Prop where
  slot_eq : l.slot = l'.slot
  target_eq : l.target = l'.target
  body : Places s s' l.body l'.body

/-! ### Machines -/

/-- Machines in two sources that hold the same numbers, are in the same phase and have
corresponding offsets. -/
structure Machine.Alike (s s' : Source) (m m' : Machine) : Prop where
  cursor : Cursor.Alike s s' m.cursor m'.cursor
  phase_eq : m.phase = m'.phase
  labels : Labels.Alike s s' m.labels m'.labels
  memory_eq : m.memory = m'.memory
  loops : Stack.Alike (Loop.Alike s s') m.loops m'.loops
  repeats : Stack.Alike (Places s s') m.repeats m'.repeats
  calls : Stack.Alike (Places s s') m.calls m'.calls
  statement : Places s s' m.statement m'.statement

namespace Execution

open Machine (Alike)

/-! ### Operations on machines -/

theorem runAlike_read {α β : Type} {R : α → β → Prop} {r : Reading α} {r' : Reading β}
    (h : RunAlike (Cursor.Alike s s') R r r') :
  RunAlike (Alike s s') R (read r) (read r')
  := by
  intro m m' hm
  have hr := h hm.cursor
  generalize hx : r m.cursor = x at hr
  generalize hx' : r' m'.cursor = x' at hr
  cases hr with
  | ok hab hc =>
    rw [read_of_ok hx, read_of_ok hx']
    apply Matching.ok hab
    exact { hm with cursor := hc }
  | error hc =>
    rw [read_of_error hx, read_of_error hx']
    apply Matching.error
    exact { hm with cursor := hc }

theorem runAlike_jump {n n' : Nat} (hn : Places s s' n n') :
  RunAlike (Alike s s') Eq (jump n) (jump n')
  := by
  apply runAlike_read
  apply runAlike_modify
  intro c c' h
  apply h.jump hn

theorem runAlike_store (i : Slot) (x : Float) :
  RunAlike (Alike s s') Eq (store i x) (store i x)
  := by
  apply runAlike_modify
  intro m m' h
  exact { h with memory_eq := by rw [h.memory_eq] }

theorem runAlike_begin {start : Cursor → Nat}
    (h : ∀ c c', Cursor.Alike s s' c c' → Places s s' (start c) (start c')) :
  RunAlike (Alike s s') Eq (begin start) (begin start)
  := by
  apply runAlike_modify
  intro m m' hm
  exact { hm with statement := h _ _ hm.cursor }

section StackField

variable {role : Stack.Role} {α : Type} {R : α → α → Prop} {l : StackField role α}

/-- Related frames are pushed on a stack whose frames are related, or the stack is full in both
machines. -/
theorem runAlike_pushOn
    (hstack : ∀ m m', Alike s s' m m' → Stack.Alike R (l.stack m) (l.stack m'))
    (hput : ∀ m m' st st', Alike s s' m m' → Stack.Alike R st st' →
      Alike s s' (l.put m st) (l.put m' st'))
    {a a' : α} (ha : R a a') :
  RunAlike (Alike s s') Eq (pushOn l a) (pushOn l a')
  := by
  intro m m' h
  have hpush := (hstack m m' h).push ha
  rw [pushOn, pushOn]
  generalize (l.stack m).push a = x at hpush
  generalize (l.stack m').push a' = x' at hpush
  cases hpush with
  | ok hst => apply Matching.ok rfl (hput m m' _ _ h hst)
  | error f => apply Matching.error h

/-- Related frames are popped, or the stack is empty in both machines. -/
theorem runAlike_popOff
    (hstack : ∀ m m', Alike s s' m m' → Stack.Alike R (l.stack m) (l.stack m'))
    (hput : ∀ m m' st st', Alike s s' m m' → Stack.Alike R st st' →
      Alike s s' (l.put m st) (l.put m' st')) :
  RunAlike (Alike s s') R (popOff l) (popOff l)
  := by
  intro m m' h
  have hpop := (hstack m m' h).pop
  rw [popOff, popOff]
  generalize (l.stack m).pop = x at hpop
  generalize (l.stack m').pop = x' at hpop
  cases hpop with
  | ok hst => apply Matching.ok hst.1 (hput m m' _ _ h hst.2)
  | error f => apply Matching.error h

end StackField

theorem runAlike_pushLoop {l l' : Loop} (hl : Loop.Alike s s' l l') :
  RunAlike (Alike s s') Eq (pushLoop l) (pushLoop l')
  := by
  rw [pushLoop_eq, pushLoop_eq]
  apply runAlike_pushOn (fun _ _ hm => hm.loops) _ hl
  intro m m' st st' hm hst
  exact { hm with loops := hst }

theorem runAlike_popLoop :
  RunAlike (Alike s s') (Loop.Alike s s') popLoop popLoop
  := by
  rw [popLoop_eq]
  apply runAlike_popOff fun _ _ hm => hm.loops
  intro m m' st st' hm hst
  exact { hm with loops := hst }

theorem runAlike_pushRepeat {n n' : Nat} (hn : Places s s' n n') :
  RunAlike (Alike s s') Eq (pushRepeat n) (pushRepeat n')
  := by
  rw [pushRepeat_eq, pushRepeat_eq]
  apply runAlike_pushOn (fun _ _ hm => hm.repeats) _ hn
  intro m m' st st' hm hst
  exact { hm with repeats := hst }

theorem runAlike_popRepeat :
  RunAlike (Alike s s') (Places s s') popRepeat popRepeat
  := by
  rw [popRepeat_eq]
  apply runAlike_popOff fun _ _ hm => hm.repeats
  intro m m' st st' hm hst
  exact { hm with repeats := hst }

theorem runAlike_pushCall {n n' : Nat} (hn : Places s s' n n') :
  RunAlike (Alike s s') Eq (pushCall n) (pushCall n')
  := by
  rw [pushCall_eq, pushCall_eq]
  apply runAlike_pushOn (fun _ _ hm => hm.calls) _ hn
  intro m m' st st' hm hst
  exact { hm with calls := hst }

theorem runAlike_popCall :
  RunAlike (Alike s s') (Places s s') popCall popCall
  := by
  rw [popCall_eq]
  apply runAlike_popOff fun _ _ hm => hm.calls
  intro m m' st st' hm hst
  exact { hm with calls := hst }

/-! ### Statements -/

theorem runAlike_assign :
  RunAlike (Alike s s') Eq assign assign
  := by
  apply runAlike_get.bind
  intro m m' hm
  rw [← hm.memory_eq]
  apply (runAlike_read Reading.runAlike_assignment).bind
  rintro ⟨i, x⟩ _ rfl
  apply (runAlike_store i x).bind
  intro _ _ _
  apply runAlike_pure rfl

theorem runAlike_print :
  RunAlike (Alike s s') Eq print print
  := by
  apply runAlike_get.bind
  intro m m' hm
  rw [← hm.memory_eq]
  apply (runAlike_read Reading.runAlike_printed).bind
  rintro text _ rfl
  apply runAlike_pure rfl

theorem runAlike_input :
  RunAlike (Alike s s') Eq input input
  := by
  apply (runAlike_read Reading.runAlike_request).bind
  rintro ⟨prompt, i⟩ _ rfl
  refine RunAlike.bind (runAlike_modify ?_) ?_
  · intro m m' h
    exact { h with phase_eq := rfl }
  · intro _ _ _
    apply runAlike_pure rfl

theorem runAlike_stop :
  RunAlike (Alike s s') Eq stop stop
  := by
  refine RunAlike.bind (runAlike_modify ?_) ?_
  · intro m m' h
    exact { h with phase_eq := rfl }
  · intro _ _ _
    apply runAlike_pure rfl

theorem runAlike_goto :
  RunAlike (Alike s s') Eq goto goto
  := by
  apply runAlike_get.bind
  intro m m' hm
  apply (runAlike_read (Reading.runAlike_destination hm.labels)).bind
  intro n n' hn
  apply (runAlike_jump hn).bind
  intro _ _ _
  apply runAlike_pure rfl

theorem runAlike_gosub :
  RunAlike (Alike s s') Eq gosub gosub
  := by
  apply runAlike_get.bind
  intro m m' hm
  apply (runAlike_read (Reading.runAlike_destination hm.labels)).bind
  intro n n' hn
  apply runAlike_get.bind
  intro m₁ m₁' hm₁
  apply (runAlike_pushCall hm₁.cursor.pos).bind
  intro _ _ _
  apply (runAlike_jump hn).bind
  intro _ _ _
  apply runAlike_pure rfl

theorem runAlike_back :
  RunAlike (Alike s s') Eq back back
  := by
  apply runAlike_popCall.bind
  intro n n' hn
  apply (runAlike_jump hn).bind
  intro _ _ _
  apply runAlike_pure rfl

theorem runAlike_branch :
  RunAlike (Alike s s') Eq branch branch
  := by
  apply runAlike_get.bind
  intro m m' hm
  rw [← hm.memory_eq]
  apply (runAlike_read Reading.runAlike_condition).bind
  intro _ _ _
  apply runAlike_pure rfl

theorem runAlike_countedLoop :
  RunAlike (Alike s s') Eq countedLoop countedLoop
  := by
  apply runAlike_get.bind
  intro m m' hm
  rw [← hm.memory_eq]
  apply (runAlike_read Reading.runAlike_assignment).bind
  rintro ⟨i, x⟩ _ rfl
  apply (runAlike_store i x).bind
  intro _ _ _
  apply runAlike_get.bind
  intro m₁ m₁' hm₁
  rw [← hm₁.memory_eq]
  apply (runAlike_read Reading.runAlike_target).bind
  rintro target _ rfl
  apply runAlike_get.bind
  intro m₂ m₂' hm₂
  have hl : Loop.Alike s s' ⟨i, target, m₂.cursor.pos⟩ ⟨i, target, m₂'.cursor.pos⟩ :=
    ⟨rfl, rfl, hm₂.cursor.pos⟩
  apply (runAlike_pushLoop hl).bind
  intro _ _ _
  apply runAlike_pure rfl

theorem runAlike_advance :
  RunAlike (Alike s s') Eq advance advance
  := by
  apply (runAlike_read Reading.runAlike_loopName).bind
  intro _ _ _
  apply runAlike_popLoop.bind
  intro l l' hl
  apply runAlike_get.bind
  intro m m' hm
  rw [← hm.memory_eq, ← hl.slot_eq, ← hl.target_eq]
  apply (runAlike_store _ _).bind
  intro _ _ _
  apply runAlike_ite Iff.rfl
  · apply runAlike_pure rfl
  · apply (runAlike_pushLoop hl).bind
    intro _ _ _
    apply (runAlike_jump hl.body).bind
    intro _ _ _
    apply runAlike_pure rfl

theorem runAlike_repeatedLoop :
  RunAlike (Alike s s') Eq repeatedLoop repeatedLoop
  := by
  apply runAlike_get.bind
  intro m m' hm
  apply (runAlike_pushRepeat hm.cursor.pos).bind
  intro _ _ _
  apply runAlike_pure rfl

theorem runAlike_untilTrue :
  RunAlike (Alike s s') Eq untilTrue untilTrue
  := by
  apply runAlike_popRepeat.bind
  intro n n' hn
  apply runAlike_get.bind
  intro m m' hm
  rw [← hm.memory_eq]
  apply (runAlike_read Reading.runAlike_expression).bind
  rintro x _ rfl
  apply runAlike_ite Iff.rfl
  · apply runAlike_pure rfl
  · apply (runAlike_pushRepeat hn).bind
    intro _ _ _
    apply (runAlike_jump hn).bind
    intro _ _ _
    apply runAlike_pure rfl

theorem runAlike_keyword (k : Keyword) :
  RunAlike (Alike s s') Eq (keyword k) (keyword k)
  := by
  cases k with
  | printWord => apply runAlike_print
  | inputWord => apply runAlike_input
  | ifWord => apply runAlike_branch
  | thenWord => apply runAlike_pure rfl
  | forWord => apply runAlike_countedLoop
  | nextWord => apply runAlike_advance
  | toWord => apply runAlike_pure rfl
  | gotoWord => apply runAlike_goto
  | gosubWord => apply runAlike_gosub
  | returnWord => apply runAlike_back
  | endWord => apply runAlike_stop
  | repeatWord => apply runAlike_repeatedLoop
  | untilWord => apply runAlike_untilTrue

/-- A name starts an assignment, whichever name it is. -/
theorem runAlike_named :
  RunAlike (Alike s s') Eq (do read Reading.pushBack; assign) (do read Reading.pushBack; assign)
  := by
  apply (runAlike_read Reading.runAlike_pushBack).bind
  intro _ _ _
  apply runAlike_assign

theorem runAlike_statement {t t' : Token} (ht : t.SameSense t') :
  RunAlike (Alike s s') Eq (statement t) (statement t')
  := by
  rcases ht.eq_or_names with rfl | ⟨u, u', rfl, rfl⟩
  · cases t with
    | name u => apply runAlike_named
    | keyword k => apply runAlike_keyword
    | endOfProgram => apply runAlike_stop
    | number | delimiter | quoted | endOfLine => apply runAlike_pure rfl
  · apply runAlike_named

/-- One step leads from machines that are alike to machines that are alike, with the same
report or the same fault. -/
theorem runAlike_step :
  RunAlike (Alike s s') Eq step step
  := by
  apply (runAlike_begin fun _ _ h => h.pos).bind
  intro _ _ _
  apply (runAlike_read Cursor.runAlike_next).bind
  intro t t' ht
  apply (runAlike_begin fun _ _ h => h.start).bind
  intro _ _ _
  apply runAlike_statement ht

end Execution

end LineBasic
