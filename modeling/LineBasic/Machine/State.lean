import LineBasic.Statement
import LineBasic.Stack

/-!
# Machines

A machine is a program together with all that one run of it needs: the place of the next
statement, the labels of the program, memory, and one stack for each kind of statement that
is closed by another.  Its phase says what it does when it is next made to go on; what it has
still to report is part of the phase, so that nothing can be left over from an earlier run.
-/

namespace LineBasic

/-- What a machine does when it is made to go on. -/
inductive Phase where
  /-- It starts the program. -/
  | ready
  /-- It goes on with the next statement. -/
  | running
  /-- It warns that what was entered is no number, and is then running. -/
  | warned
  /-- It asks, with a prompt, for the number of a slot. -/
  | awaiting (prompt : String) (slot : Slot)
  /-- It reports a fault, and has then stopped. -/
  | failing (fault : Fault)
  /-- It does nothing. -/
  | stopped
  deriving DecidableEq, Repr

/-- What a machine reports. -/
inductive Event where
  /-- The program has come to its end. -/
  | stopped
  /-- The program has not come to its end within the given number of statements. -/
  | running
  /-- The text of one `PRINT` statement. -/
  | print (text : String)
  /-- A line is asked for, with a prompt. -/
  | input (prompt : String)
  /-- A warning, after which the program goes on. -/
  | warning (text : String)
  /-- A fault, which ends the program. -/
  | fault (fault : Fault)
  deriving DecidableEq, Repr

/-- A counted loop that has been entered: its variable, the number it counts to and the
offset of its body. -/
structure Loop where
  slot : Slot
  target : Float
  body : Nat
  deriving DecidableEq

namespace Stack.Role

/-- The stack of counted loops. -/
def loops : Role :=
  ⟨"TOO MANY FOR LOOPS", .nextWithoutFor⟩

/-- The stack of repeated loops. -/
def repeats : Role :=
  ⟨"TOO MANY REPEAT LOOPS", .nextWithoutFor⟩

/-- The stack of subroutine calls. -/
def calls : Role :=
  ⟨"TOO MANY GOSUBS", .returnWithoutGosub⟩

end Stack.Role

/-- A program and the state of its run. -/
structure Machine where
  cursor : Cursor
  phase : Phase := .ready
  labels : Labels := .empty
  memory : Memory := .zero
  /-- The counted loops that have been entered. -/
  loops : Stack .loops Loop := .empty
  /-- The offsets of the bodies of the repeated loops that have been entered. -/
  repeats : Stack .repeats Nat := .empty
  /-- The offsets at which the callers of subroutines go on. -/
  calls : Stack .calls Nat := .empty
  /-- The offset of the statement that was begun last. -/
  statement : Nat := 0

namespace Machine

/-- The machine that is about to start a program. -/
def ofSource (s : Source) : Machine :=
  { cursor := { source := s } }

/-- The machine that is about to start the program with the given text. -/
def ofString (s : String) : Machine :=
  ofSource (Source.ofString s)

/-- The machine is at rest and has nothing to report. -/
def isStopped (m : Machine) : Bool :=
  m.phase = .stopped

/-- The number of the line of the statement that was begun last. -/
def line (m : Machine) : Nat :=
  m.cursor.lineOf m.statement

/-- The number in the slot of a name. -/
def valueOf (m : Machine) (name : String) : Except Fault Float :=
  (Slot.ofName name).map m.memory.fetch

end Machine

/-- Steps of a machine, which may end in a fault. -/
abbrev Execution :=
  EStateM Fault Machine

namespace Execution

/-- Reads at the cursor of the machine. -/
def read {α : Type} (r : Reading α) : Execution α := fun m =>
  match r m.cursor with
  | .ok a c => .ok a { m with cursor := c }
  | .error f c => .error f { m with cursor := c }

/-- Goes on at another offset. -/
def jump (offset : Nat) : Execution Unit :=
  read (modify (·.jump offset))

/-- Stores a number. -/
def store (i : Slot) (x : Float) : Execution Unit :=
  modify fun m => { m with memory := m.memory.store i x }

/-- Enters a counted loop. -/
def pushLoop (l : Loop) : Execution Unit := fun m =>
  match m.loops.push l with
  | .ok s => .ok () { m with loops := s }
  | .error f => .error f m

/-- Leaves the counted loop that was entered last. -/
def popLoop : Execution Loop := fun m =>
  match m.loops.pop with
  | .ok (l, s) => .ok l { m with loops := s }
  | .error f => .error f m

/-- Enters a repeated loop with its body at an offset. -/
def pushRepeat (body : Nat) : Execution Unit := fun m =>
  match m.repeats.push body with
  | .ok s => .ok () { m with repeats := s }
  | .error f => .error f m

/-- Leaves the repeated loop that was entered last, and yields the offset of its body. -/
def popRepeat : Execution Nat := fun m =>
  match m.repeats.pop with
  | .ok (body, s) => .ok body { m with repeats := s }
  | .error f => .error f m

/-- Notes the offset at which a caller goes on. -/
def pushCall (offset : Nat) : Execution Unit := fun m =>
  match m.calls.push offset with
  | .ok s => .ok () { m with calls := s }
  | .error f => .error f m

/-- Yields the offset at which the last caller goes on. -/
def popCall : Execution Nat := fun m =>
  match m.calls.pop with
  | .ok (offset, s) => .ok offset { m with calls := s }
  | .error f => .error f m

end Execution

end LineBasic
