import LineBasic.Machine.Step
import LineBasic.Proofs.Machine.Operation
import LineBasic.Proofs.Reading.Order
import LineBasic.Proofs.Stack

/-!
# Statements in order

A statement is executed in order when what it reads is read in order, and when nothing is read
any more once it has jumped.  What else it does, such as storing numbers and using the stacks,
takes no notice of the text.  All statements are executed in order, so that a statement that ends
in a fault has not left its line.
-/

namespace LineBasic

open Program

/-- The machine with another text in place of its program. -/
def Machine.withSource (m : Machine) (s : Source) : Machine :=
  { m with cursor := { m.cursor with source := s } }

namespace Execution

open Cursor (InLine)
open Reading (Stage)

/-- An operation that takes no notice of the text and leaves the cursor where it is.  Its faults
are not yet placed in a line. -/
structure Still {α : Type} (o : Execution α) : Prop where
  cursor_eq : Keeps (fun m m' => m'.cursor = m.cursor) o
  blind : ∀ s, RunAlike (fun m m' => m' = m.withSource s) Eq o o
  line?_eq : ∀ m f m', o m = .error f m' → f.line? = none

/-- Execution in order from a stage on.  It is made up of reading in order, of jumps, after which
nothing is read, and of operations that take no notice of the text. -/
inductive Orderly : {α : Type} → Stage → Execution α → (α → Stage → Prop) → Prop
  | pure {α : Type} {p : Stage} {a : α} {Q : α → Stage → Prop} (h : Q a p) :
    Orderly p (pure a) Q
  | still {α : Type} {p : Stage} {o : Execution α} {Q : α → Stage → Prop} (hp : p ≠ .left)
    (ho : Still o) (h : ∀ a, Q a p) : Orderly p o Q
  | look {α β : Type} {p : Stage} {v : Machine → β} {k : β → Execution α}
    {Q : α → Stage → Prop} (hv : ∀ m s, v (m.withSource s) = v m)
    (h : ∀ b, Orderly p (k b) Q) : Orderly p (do k (v (← get))) Q
  | read {α : Type} {p : Stage} {r : Reading α} {Q : α → Stage → Prop} (hp : p ≠ .left)
    (h : Reading.Orderly p r Q) : Orderly p (read r) Q
  | jump {p : Stage} {n : Nat} {Q : Unit → Stage → Prop} (hp : p ≠ .left) (h : Q () .left) :
    Orderly p (jump n) Q
  | bind {α β : Type} {p : Stage} {o : Execution α} {k : α → Execution β} {R : α → Stage → Prop}
    {Q : β → Stage → Prop} (ho : Orderly p o R) (hk : ∀ a q, R a q → Orderly q (k a) Q) :
    Orderly p (o >>= k) Q

/-! ### Operations that take no notice of the text -/

/-- Changes of the machine take no notice of the text if they are the same with any other. -/
theorem still_modify {f : Machine → Machine} (hcursor : ∀ m, (f m).cursor = m.cursor)
    (hblind : ∀ m s, f (m.withSource s) = (f m).withSource s) :
  Still (modify f : Execution Unit)
  where
  cursor_eq := keeps_modify hcursor
  blind s := by
    apply runAlike_modify
    rintro m _ rfl
    apply hblind
  line?_eq m f m' h := by cases h

section StackField

variable {role : Stack.Role} {α : Type} {l : StackField role α}

/-- A stack of the machine that has nothing to do with its cursor. -/
structure StackField.Apart (l : StackField role α) : Prop where
  stack_eq : ∀ m s, l.stack (m.withSource s) = l.stack m
  put_eq : ∀ m s st, l.put (m.withSource s) st = (l.put m st).withSource s
  cursor_eq : ∀ m st, (l.put m st).cursor = m.cursor

theorem still_pushOn (hl : l.Apart) (a : α) :
  Still (pushOn l a)
  where
  cursor_eq m := by
    cases h : (l.stack m).push a with
    | ok st =>
      rw [pushOn_of_ok h]
      apply hl.cursor_eq
    | error f =>
      rw [pushOn_of_error h]
      rfl
  blind s := by
    rintro m _ rfl
    cases h : (l.stack m).push a with
    | ok st =>
      rw [pushOn_of_ok h, pushOn_of_ok ((hl.stack_eq m s).symm ▸ h)]
      exact .ok rfl (hl.put_eq m s st)
    | error f =>
      rw [pushOn_of_error h, pushOn_of_error ((hl.stack_eq m s).symm ▸ h)]
      exact .error rfl
  line?_eq m f m' h := by
    cases hpush : (l.stack m).push a with
    | ok st =>
      rw [pushOn_of_ok hpush] at h
      cases h
    | error f' =>
      rw [pushOn_of_error hpush] at h
      cases h
      rw [(Stack.push_eq_error_iff.mp hpush).2]
      rfl

theorem still_popOff (hl : l.Apart) :
  Still (popOff l)
  where
  cursor_eq m := by
    cases h : (l.stack m).pop with
    | ok x =>
      rw [popOff_of_ok h]
      apply hl.cursor_eq
    | error f =>
      rw [popOff_of_error h]
      rfl
  blind s := by
    rintro m _ rfl
    cases h : (l.stack m).pop with
    | ok x =>
      rw [popOff_of_ok h, popOff_of_ok ((hl.stack_eq m s).symm ▸ h)]
      exact .ok rfl (hl.put_eq m s x.2)
    | error f =>
      rw [popOff_of_error h, popOff_of_error ((hl.stack_eq m s).symm ▸ h)]
      exact .error rfl
  line?_eq m f m' h := by
    cases hpop : (l.stack m).pop with
    | ok x =>
      rw [popOff_of_ok hpop] at h
      cases h
    | error f' =>
      rw [popOff_of_error hpop] at h
      cases h
      rw [Stack.pop_eq_error_iff.mp hpop |>.2]
      rfl

end StackField

theorem still_pushLoop (a : Loop) :
  Still (pushLoop a)
  := by
  rw [pushLoop_eq]
  apply still_pushOn ⟨fun _ _ => rfl, fun _ _ _ => rfl, fun _ _ => rfl⟩

theorem still_popLoop :
  Still popLoop
  := by
  rw [popLoop_eq]
  apply still_popOff ⟨fun _ _ => rfl, fun _ _ _ => rfl, fun _ _ => rfl⟩

theorem still_pushRepeat (a : Nat) :
  Still (pushRepeat a)
  := by
  rw [pushRepeat_eq]
  apply still_pushOn ⟨fun _ _ => rfl, fun _ _ _ => rfl, fun _ _ => rfl⟩

theorem still_popRepeat :
  Still popRepeat
  := by
  rw [popRepeat_eq]
  apply still_popOff ⟨fun _ _ => rfl, fun _ _ _ => rfl, fun _ _ => rfl⟩

theorem still_pushCall (a : Nat) :
  Still (pushCall a)
  := by
  rw [pushCall_eq]
  apply still_pushOn ⟨fun _ _ => rfl, fun _ _ _ => rfl, fun _ _ => rfl⟩

theorem still_popCall :
  Still popCall
  := by
  rw [popCall_eq]
  apply still_popOff ⟨fun _ _ => rfl, fun _ _ _ => rfl, fun _ _ => rfl⟩

theorem still_store (i : Slot) (x : Float) :
  Still (store i x)
  := still_modify (fun _ => rfl) fun _ _ => rfl

theorem still_phase (p : Phase) :
  Still (modify fun m => { m with phase := p })
  := still_modify (fun _ => rfl) fun _ _ => rfl

/-- Where a statement starts is noted without a look at the text. -/
theorem still_begin {g : Cursor → Nat} (hg : ∀ c s, g { c with source := s } = g c) :
  Still (begin g)
  := by
  apply still_modify
  · intro _
    rfl
  · intro m s
    rw [Machine.withSource, Machine.withSource, hg]

/-! ### Statements -/

/-- What follows a reading in order that ends inside of the line goes on there. -/
theorem orderly_read_bind {α β : Type} {r : Reading α} {k : α → Execution β}
    {Q : β → Stage → Prop} (hr : Reading.Orderly .inside r fun _ q => q = .inside)
    (hk : ∀ a, Orderly .inside (k a) Q) :
  Orderly .inside (read r >>= k) Q
  := by
  apply Orderly.bind (.read Stage.noConfusion hr)
  rintro a _ rfl
  apply hk

/-- What follows an operation that takes no notice of the text goes on in the same stage. -/
theorem orderly_still_bind {α β : Type} {p : Stage} {o : Execution α} {k : α → Execution β}
    {Q : β → Stage → Prop} (hp : p ≠ .left) (ho : Still o) (hk : ∀ a, Orderly p (k a) Q) :
  Orderly p (o >>= k) Q
  := by
  apply Orderly.bind (.still (Q := fun _ q => q = p) hp ho fun _ => rfl)
  rintro a _ rfl
  apply hk

/-- A jump comes last in a statement. -/
theorem orderly_jump (n : Nat) :
  Orderly .inside (do jump n; return none : Execution (Option Event)) fun _ _ => True
  := by
  apply Orderly.bind (.jump (Q := fun _ q => q = .left) Stage.noConfusion rfl)
  intro _ _ _
  exact .pure trivial

theorem orderly_stop {p : Stage} (hp : p ≠ .left) :
  Orderly p stop fun _ _ => True
  := by
  apply orderly_still_bind hp (still_phase .stopped)
  intro _
  exact .pure trivial

theorem orderly_assign :
  Orderly .inside assign fun _ _ => True
  := by
  apply Orderly.look (v := Machine.memory)
    (k := fun v => do
      let a ← read (Reading.assignment v)
      store a.1 a.2
      return none) fun _ _ => rfl
  intro v
  apply orderly_read_bind Reading.orderly_assignment
  intro a
  apply orderly_still_bind Stage.noConfusion (still_store a.1 a.2)
  intro _
  exact .pure trivial

theorem orderly_print :
  Orderly .inside print fun _ _ => True
  := by
  apply Orderly.look (v := Machine.memory)
    (k := fun v => do return some (Event.print (← read (Reading.printed v)))) fun _ _ => rfl
  intro v
  apply Orderly.bind (.read Stage.noConfusion Reading.orderly_printed)
  intro _ _ _
  exact .pure trivial

theorem orderly_input :
  Orderly .inside input fun _ _ => True
  := by
  apply orderly_read_bind Reading.orderly_request
  rintro ⟨prompt, i⟩
  apply orderly_still_bind Stage.noConfusion (still_phase (.awaiting prompt i))
  intro _
  exact .pure trivial

theorem orderly_goto :
  Orderly .inside goto fun _ _ => True
  := by
  apply Orderly.look (v := Machine.labels)
    (k := fun t => do
      jump (← read (Reading.destination t))
      return none) fun _ _ => rfl
  intro t
  apply orderly_read_bind (Reading.orderly_destination t)
  apply orderly_jump

theorem orderly_gosub :
  Orderly .inside gosub fun _ _ => True
  := by
  apply Orderly.look (v := Machine.labels)
    (k := fun t => do
      let offset ← read (Reading.destination t)
      pushCall (← get).cursor.pos
      jump offset
      return none) fun _ _ => rfl
  intro t
  apply orderly_read_bind (Reading.orderly_destination t)
  intro offset
  apply Orderly.look (v := fun m => m.cursor.pos)
    (k := fun n => do
      pushCall n
      jump offset
      return none) fun _ _ => rfl
  intro n
  apply orderly_still_bind Stage.noConfusion (still_pushCall n)
  intro _
  apply orderly_jump

theorem orderly_back :
  Orderly .inside back fun _ _ => True
  := by
  apply orderly_still_bind Stage.noConfusion still_popCall
  apply orderly_jump

theorem orderly_branch :
  Orderly .inside branch fun _ _ => True
  := by
  apply Orderly.look (v := Machine.memory)
    (k := fun v => do
      read (Reading.condition v)
      return none) fun _ _ => rfl
  intro v
  apply Orderly.bind (.read Stage.noConfusion Reading.orderly_condition)
  intro _ _ _
  exact .pure trivial

theorem orderly_countedLoop :
  Orderly .inside countedLoop fun _ _ => True
  := by
  apply Orderly.look (v := Machine.memory)
    (k := fun v => do
      let a ← read (Reading.assignment v)
      store a.1 a.2
      let target ← read (Reading.target (← get).memory)
      pushLoop ⟨a.1, target, (← get).cursor.pos⟩
      return none) fun _ _ => rfl
  intro v
  apply orderly_read_bind Reading.orderly_assignment
  intro a
  apply orderly_still_bind Stage.noConfusion (still_store a.1 a.2)
  intro _
  apply Orderly.look (v := Machine.memory)
    (k := fun v => do
      let target ← read (Reading.target v)
      pushLoop ⟨a.1, target, (← get).cursor.pos⟩
      return none) fun _ _ => rfl
  intro v
  apply orderly_read_bind Reading.orderly_target
  intro target
  apply Orderly.look (v := fun m => m.cursor.pos)
    (k := fun n => do
      pushLoop ⟨a.1, target, n⟩
      return none) fun _ _ => rfl
  intro n
  apply orderly_still_bind Stage.noConfusion (still_pushLoop _)
  intro _
  exact .pure trivial

theorem orderly_advance :
  Orderly .inside advance fun _ _ => True
  := by
  apply orderly_read_bind Reading.orderly_loopName
  intro _
  apply orderly_still_bind Stage.noConfusion still_popLoop
  intro l
  apply Orderly.look (v := fun m => m.memory.fetch l.slot + 1.0)
    (k := fun x => do
      store l.slot x
      if x > l.target then
        return none
      else
        pushLoop l
        jump l.body
        return none) fun _ _ => rfl
  intro x
  apply orderly_still_bind Stage.noConfusion (still_store l.slot x)
  intro _
  split
  · exact .pure trivial
  · apply orderly_still_bind Stage.noConfusion (still_pushLoop l)
    intro _
    apply orderly_jump

theorem orderly_repeatedLoop :
  Orderly .inside repeatedLoop fun _ _ => True
  := by
  apply Orderly.look (v := fun m => m.cursor.pos)
    (k := fun n => do
      pushRepeat n
      return none) fun _ _ => rfl
  intro n
  apply orderly_still_bind Stage.noConfusion (still_pushRepeat n)
  intro _
  exact .pure trivial

theorem orderly_untilTrue :
  Orderly .inside untilTrue fun _ _ => True
  := by
  apply orderly_still_bind Stage.noConfusion still_popRepeat
  intro body
  apply Orderly.look (v := Machine.memory)
    (k := fun v => do
      if (← read (Reading.expression v)) != 0.0 then
        return none
      else
        pushRepeat body
        jump body
        return none) fun _ _ => rfl
  intro v
  apply orderly_read_bind Reading.orderly_expression
  intro x
  split
  · exact .pure trivial
  · apply orderly_still_bind Stage.noConfusion (still_pushRepeat body)
    intro _
    apply orderly_jump

/-- The statement that a token starts is executed in order after this token. -/
theorem orderly_statement (t : Token) :
  Orderly (.after t) (statement t) fun _ _ => True
  := by
  cases t with
  | name s =>
    have hback : Reading.Orderly .inside Reading.pushBack fun _ q => q = .inside :=
      .pushBack Stage.noConfusion rfl
    apply orderly_read_bind hback
    intro _
    apply orderly_assign
  | number | delimiter | quoted | endOfLine => exact .pure trivial
  | endOfProgram => apply orderly_stop Stage.noConfusion
  | keyword k =>
    cases k with
    | printWord => apply orderly_print
    | inputWord => apply orderly_input
    | endWord => apply orderly_stop Stage.noConfusion
    | gotoWord => apply orderly_goto
    | gosubWord => apply orderly_gosub
    | returnWord => apply orderly_back
    | ifWord => apply orderly_branch
    | forWord => apply orderly_countedLoop
    | nextWord => apply orderly_advance
    | repeatWord => apply orderly_repeatedLoop
    | untilWord => apply orderly_untilTrue
    | thenWord | toWord => exact .pure trivial

/-- Every step is executed in order. -/
theorem orderly_step :
  Orderly .inside step fun _ _ => True
  := by
  apply orderly_still_bind Stage.noConfusion (still_begin fun _ _ => rfl)
  intro _
  apply Orderly.bind (.read Stage.noConfusion (.next (Q := fun t q => q = .after t) fun _ => rfl))
  rintro t _ rfl
  apply orderly_still_bind (Stage.after_ne_left t) (still_begin fun _ _ => rfl)
  intro _
  apply orderly_statement

/-! ### Staying in the line -/

variable {α : Type} {s : Source} {a : Nat} {p : Stage} {o : Execution α} {Q : α → Stage → Prop}
  {m : Machine}

/-- What has been executed in order is in the line that holds the offset `a`, unless it has left
the line, and also if it has ended in a fault, which is then not yet placed. -/
def Confined (s : Source) (a : Nat) (Q : α → Stage → Prop) : EStateM.Result Fault Machine α → Prop
  | .ok v m => ∃ q, Q v q ∧ (q ≠ .left → InLine s a q m.cursor)
  | .error f m => f.line? = none ∧ ∃ q, q ≠ .left ∧ InLine s a q m.cursor

/-- Execution in order meets faults in the line only. -/
theorem Orderly.confined (h : Orderly p o Q) (hm : p ≠ .left → InLine s a p m.cursor) :
  Confined s a Q (o m)
  := by
  induction h generalizing m with
  | pure h => exact ⟨_, h, hm⟩
  | @still _ p o Q hp ho h =>
    cases hout : o m with
    | ok v m' =>
      refine ⟨p, h v, fun hp => ?_⟩
      rw [ho.cursor_eq.of_ok hout]
      apply hm hp
    | error f m' =>
      refine ⟨ho.line?_eq m f m' hout, p, hp, ?_⟩
      rw [ho.cursor_eq.of_error hout]
      apply hm hp
  | look _ _ ih => exact ih _ hm
  | @read _ p r Q hp h =>
    have hread := h.confined (hm hp)
    cases hout : r m.cursor with
    | ok v c =>
      rw [hout] at hread
      obtain ⟨q, hv, hc⟩ := hread
      rw [read_of_ok hout]
      exact ⟨q, hv, fun _ => hc⟩
    | error f c =>
      rw [hout] at hread
      rw [read_of_error hout]
      exact hread
  | jump hp h => exact ⟨_, h, fun hq => absurd rfl hq⟩
  | @bind _ _ p o k R Q ho hk iho ihk =>
    have hfirst := iho hm
    cases hout : o m with
    | ok v m' =>
      rw [hout] at hfirst
      obtain ⟨q, hv, hm'⟩ := hfirst
      rw [bind_of_ok hout]
      apply ihk v q hv hm'
    | error f m' =>
      rw [hout] at hfirst
      rw [bind_of_error hout]
      exact hfirst

end Execution

end LineBasic
