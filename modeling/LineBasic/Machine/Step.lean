import LineBasic.Machine.State

/-!
# Statements

`Execution.step` executes one statement: it reads the first token, which tells the kind of
the statement, and then whatever belongs to a statement of this kind.  Most statements report
nothing.  Tokens that start no statement are passed over.
-/

namespace LineBasic.Execution

/-- Ends the program. -/
def stop : Execution (Option Event) := do
  modify fun m => { m with phase := .stopped }
  return some .stopped

/-- Stores a number in the slot of a name. -/
def assign : Execution (Option Event) := do
  let (i, x) ← read (Reading.assignment (← get).memory)
  store i x
  return none

/-- `PRINT` reports the text of its items. -/
def print : Execution (Option Event) := do
  return some (.print (← read (Reading.printed (← get).memory)))

/-- `INPUT` waits for a line to be entered. -/
def input : Execution (Option Event) := do
  let (prompt, i) ← read Reading.request
  modify fun m => { m with phase := .awaiting prompt i }
  return some (.input prompt)

/-- `GOTO` goes on after a label. -/
def goto : Execution (Option Event) := do
  jump (← read (Reading.destination (← get).labels))
  return none

/-- `GOSUB` goes on after a label, until the next `RETURN`. -/
def gosub : Execution (Option Event) := do
  let offset ← read (Reading.destination (← get).labels)
  pushCall (← get).cursor.pos
  jump offset
  return none

/-- `RETURN` goes on after the last `GOSUB`. -/
def back : Execution (Option Event) := do
  jump (← popCall)
  return none

/-- `IF` goes on after `THEN` or on the next line. -/
def branch : Execution (Option Event) := do
  read (Reading.condition (← get).memory)
  return none

/-- `FOR` stores the first number of its variable, and enters a counted loop; the body comes
first in any case. -/
def countedLoop : Execution (Option Event) := do
  let (i, x) ← read (Reading.assignment (← get).memory)
  store i x
  let target ← read (Reading.target (← get).memory)
  pushLoop ⟨i, target, (← get).cursor.pos⟩
  return none

/-- `NEXT` adds one to the variable of the last counted loop, and leaves the loop if that
exceeds the number counted to. -/
def advance : Execution (Option Event) := do
  read Reading.loopName
  let l ← popLoop
  let x := (← get).memory.fetch l.slot + 1.0
  store l.slot x
  if x > l.target then
    return none
  else
    pushLoop l
    jump l.body
    return none

/-- `REPEAT` enters a repeated loop. -/
def repeatedLoop : Execution (Option Event) := do
  pushRepeat (← get).cursor.pos
  return none

/-- `UNTIL` leaves the last repeated loop if its condition holds. -/
def untilTrue : Execution (Option Event) := do
  let body ← popRepeat
  if (← read (Reading.expression (← get).memory)) != 0.0 then
    return none
  else
    pushRepeat body
    jump body
    return none

/-- The statement that a keyword starts. -/
def keyword : Keyword → Execution (Option Event)
  | .printWord => print
  | .inputWord => input
  | .endWord => stop
  | .gotoWord => goto
  | .gosubWord => gosub
  | .returnWord => back
  | .ifWord => branch
  | .forWord => countedLoop
  | .nextWord => advance
  | .repeatWord => repeatedLoop
  | .untilWord => untilTrue
  | .thenWord | .toWord => return none

/-- Notes where the statement that is begun starts. -/
def begin (start : Cursor → Nat) : Execution Unit :=
  modify fun m => { m with statement := start m.cursor }

/-- The statement that a token starts. -/
def statement : Token → Execution (Option Event)
  | .name _ => do
    read Reading.pushBack
    assign
  | .keyword k => keyword k
  | .endOfProgram => stop
  | .number _ | .delimiter _ | .quoted _ | .endOfLine => return none

/-- Executes one statement. -/
def step : Execution (Option Event) := do
  begin Cursor.pos
  let t ← read Cursor.next
  begin Cursor.start
  statement t

end LineBasic.Execution
