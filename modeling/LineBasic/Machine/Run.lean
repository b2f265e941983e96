import LineBasic.Machine.Step
import LineBasic.Text.Space

/-!
# Running a program

A machine is made to go on by `Machine.execute`, which reports one event.  When the event
asks for input, it is answered by `Machine.enter` or by `Machine.endOfInput`.  A run is cut
short by `Machine.interrupt`, and `Machine.restart` makes the next run start over.  These are
the requests that can be made, and `Machine.perform` makes any one of them.
-/

namespace LineBasic.Machine

/-- The machine at the start of its program, unless the labels are at fault. -/
def start : Execution Unit := do
  modify fun m =>
    { m with memory := .zero, loops := .empty, repeats := .empty, calls := .empty, statement := 0 }
  let t ← Execution.read Labels.build
  modify fun m => { m with labels := t, phase := .running }

/-- Stops with a fault, which is placed in the line of the statement that was begun last
unless its line is known. -/
def fail (f : Fault) (m : Machine) : Event × Machine :=
  (.fault (f.orInLine m.line), { m with phase := .stopped })

/-- Executes up to `n` statements, until one of them reports an event. -/
def proceed : (n : Nat) → Machine → Event × Machine
  | 0, m => (.running, m)
  | n + 1, m =>
    match Execution.step m with
    | .ok none m' => proceed n m'
    | .ok (some e) m' => (e, m')
    | .error f m' => fail f m'

/-- Makes the machine go on, by up to `n` statements if it is running. -/
def execute (n : Nat) (m : Machine) : Event × Machine :=
  match m.phase with
  | .ready =>
    match start m with
    | .ok () m' => proceed n m'
    | .error f m' => fail f m'
  | .running => proceed n m
  | .warned => (.warning "INVALID INPUT", { m with phase := .running })
  | .awaiting prompt _ => (.input prompt, m)
  | .failing f => (.fault f, { m with phase := .stopped })
  | .stopped => (.stopped, m)

/-- A machine that runs executes statements. -/
theorem execute_of_running {m : Machine} (h : m.phase = .running) (n : Nat) :
  m.execute n = m.proceed n
  := by
  rw [execute, h]

/-- Answers a request for input by a line. -/
def enter (line : String) (m : Machine) : Machine :=
  match m.phase with
  | .awaiting _ i =>
    match Number.ofChars? (trimmed line.toList) with
    | some x => { m with phase := .running, memory := m.memory.store i x }
    | none => { m with phase := .warned }
  | _ => m

/-- Answers a request for input by there being none. -/
def endOfInput (m : Machine) : Machine :=
  match m.phase with
  | .awaiting _ _ => { m with phase := .failing ((Fault.of .inputUnreadable).orInLine m.line) }
  | _ => m

/-- Stops the program; a fault that is still to be reported is kept. -/
def interrupt (m : Machine) : Machine :=
  match m.phase with
  | .failing _ => m
  | _ => { m with phase := .stopped }

/-- Makes the next execution start the program over. -/
def restart (m : Machine) : Machine :=
  { m with phase := .ready }

/-! ### Requests -/

/-- What can be asked of a machine. -/
inductive Request where
  | execute (n : Nat)
  | enter (line : String)
  | endOfInput
  | interrupt
  | restart
  deriving DecidableEq, Repr

/-- Makes a request, and yields the event that it reports, if it is one that does. -/
def perform : Request → Machine → Option Event × Machine
  | .execute n, m => let (e, m') := m.execute n; (some e, m')
  | .enter line, m => (none, m.enter line)
  | .endOfInput, m => (none, m.endOfInput)
  | .interrupt, m => (none, m.interrupt)
  | .restart, m => (none, m.restart)

/-- Makes requests one after the other, and yields the events that they report. -/
def performAll : List Request → Machine → List Event × Machine
  | [], m => ([], m)
  | r :: rs, m =>
    let (e?, m') := m.perform r
    let (es, m'') := performAll rs m'
    (e?.toList ++ es, m'')

/-- Runs the program until it has stopped or `limit` events have been reported, by executing
up to `n` statements at a time and by answering requests for input with the given lines, and
by the end of input after the last of them. -/
def play (n : Nat) : (limit : Nat) → (lines : List String) → Machine → List Event × Machine
  | 0, _, m => ([], m)
  | limit + 1, lines, m =>
    let (e, m') := m.execute n
    match e with
    | .stopped => ([e], m')
    | .input _ =>
      let (es, m'') :=
        match lines with
        | line :: lines => play n limit lines (m'.enter line)
        | [] => play n limit [] m'.endOfInput
      (e :: es, m'')
    | _ =>
      let (es, m'') := play n limit lines m'
      (e :: es, m'')

end LineBasic.Machine
