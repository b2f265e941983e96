import LineBasic.Machine.State

/-!
# Operations of a machine

A machine reads with its cursor, and pushes on its three stacks and pops off them in the same
way: a stack is looked up, and is replaced unless it is full or empty.
-/

namespace LineBasic.Execution

/-! ### Reading -/

theorem read_of_ok {α : Type} {r : Reading α} {m : Machine} {a : α} {c : Cursor}
    (h : r m.cursor = .ok a c) :
  read r m = .ok a { m with cursor := c }
  := by
  rw [read, h]

theorem read_of_error {α : Type} {r : Reading α} {m : Machine} {f : Fault} {c : Cursor}
    (h : r m.cursor = .error f c) :
  read r m = .error f { m with cursor := c }
  := by
  rw [read, h]

/-! ### The stacks of a machine -/

/-- A stack of a machine: how it is looked up and how it is replaced. -/
structure StackField (role : Stack.Role) (α : Type) where
  stack : Machine → Stack role α
  put : Machine → Stack role α → Machine

/-- The stack of counted loops. -/
def loops : StackField .loops Loop :=
  ⟨Machine.loops, fun m st => { m with loops := st }⟩

/-- The stack of repeated loops. -/
def repeats : StackField .repeats Nat :=
  ⟨Machine.repeats, fun m st => { m with repeats := st }⟩

/-- The stack of subroutine calls. -/
def calls : StackField .calls Nat :=
  ⟨Machine.calls, fun m st => { m with calls := st }⟩

section StackField

variable {role : Stack.Role} {α : Type}

/-- Pushes a frame on a stack of the machine. -/
def pushOn (l : StackField role α) (a : α) : Execution Unit := fun m =>
  match (l.stack m).push a with
  | .ok st => .ok () (l.put m st)
  | .error f => .error f m

/-- Pops a frame off a stack of the machine. -/
def popOff (l : StackField role α) : Execution α := fun m =>
  match (l.stack m).pop with
  | .ok (a, st) => .ok a (l.put m st)
  | .error f => .error f m

section Outcomes

variable {l : StackField role α} {m : Machine} {a : α} {st : Stack role α} {f : Fault}

theorem pushOn_of_ok (h : (l.stack m).push a = .ok st) :
  pushOn l a m = .ok () (l.put m st)
  := by
  rw [pushOn, h]

theorem pushOn_of_error (h : (l.stack m).push a = .error f) :
  pushOn l a m = .error f m
  := by
  rw [pushOn, h]

theorem popOff_of_ok (h : (l.stack m).pop = .ok (a, st)) :
  popOff l m = .ok a (l.put m st)
  := by
  rw [popOff, h]

theorem popOff_of_error (h : (l.stack m).pop = .error f) :
  popOff l m = .error f m
  := by
  rw [popOff, h]

end Outcomes

theorem pushLoop_eq (l : Loop) :
  pushLoop l = pushOn loops l
  := by
  funext m
  rw [pushLoop, pushOn]
  cases h : m.loops.push l with
  | ok st => simp only [loops, h]
  | error f => simp only [loops, h]

theorem popLoop_eq :
  popLoop = popOff loops
  := by
  funext m
  rw [popLoop, popOff]
  cases h : m.loops.pop with
  | ok x => simp only [loops, h]
  | error f => simp only [loops, h]

theorem pushRepeat_eq (body : Nat) :
  pushRepeat body = pushOn repeats body
  := by
  funext m
  rw [pushRepeat, pushOn]
  cases h : m.repeats.push body with
  | ok st => simp only [repeats, h]
  | error f => simp only [repeats, h]

theorem popRepeat_eq :
  popRepeat = popOff repeats
  := by
  funext m
  rw [popRepeat, popOff]
  cases h : m.repeats.pop with
  | ok x => simp only [repeats, h]
  | error f => simp only [repeats, h]

theorem pushCall_eq (offset : Nat) :
  pushCall offset = pushOn calls offset
  := by
  funext m
  rw [pushCall, pushOn]
  cases h : m.calls.push offset with
  | ok st => simp only [calls, h]
  | error f => simp only [calls, h]

theorem popCall_eq :
  popCall = popOff calls
  := by
  funext m
  rw [popCall, popOff]
  cases h : m.calls.pop with
  | ok x => simp only [calls, h]
  | error f => simp only [calls, h]

end StackField

end LineBasic.Execution
