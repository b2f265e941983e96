import LineBasic.Expression
import LineBasic.Labels
import LineBasic.Number.Shortest

/-!
# The parts of statements

What each kind of statement reads after its first token, and what it yields: an assignment
its slot and number, `PRINT` its text, `INPUT` its prompt and slot, a jump its destination.
Reading a statement moves the cursor and does nothing else, so that one that ends in a fault
has changed neither memory nor stacks.
-/

namespace LineBasic.Reading

/-- The slot of a token that has to be a name. -/
def slotOf : Token → Reading Slot
  | .name s => ofExcept (Slot.ofName s)
  | _ => fail .notAVariable

/-- Passes the token that has to follow. -/
def expect (t : Token) (kind : Fault.Kind) : Reading Unit := do
  if (← Cursor.next) = t then return () else fail kind

/-- An assignment: its slot and the number to be stored there. -/
def assignment (m : Memory) : Reading (Slot × Float) := do
  let i ← slotOf (← Cursor.next)
  expect (.delimiter .equal) .equalSignExpected
  return (i, ← expression m)

/-- The last part of a counted loop: the number that its variable counts to. -/
def target (m : Memory) : Reading Float := do
  expect (.keyword .toWord) .toExpected
  expression m

/-- The offset that follows the label named next. -/
def destination (labels : Labels) : Reading Nat := do
  match ← Cursor.next with
  | .number label =>
    match labels.get? label with
    | some offset => return offset
    | none => fail .undefinedLabel label
  | _ => fail .undefinedLabel

/-- A condition and what follows it: where it holds the word `THEN`, otherwise the rest of
the line, whatever that is. -/
def condition (m : Memory) : Reading Unit := do
  if (← expression m) == 0.0 then
    modify Cursor.skipLine
  else
    expect (.keyword .thenWord) .thenExpected

/-- The name after the word `NEXT`, which may be left out. -/
def loopName : Reading Unit := do
  match ← Cursor.next with
  | .name _ => return ()
  | _ => pushBack

/-- A request for input: its prompt and the slot that is to be filled. -/
def request : Reading (String × Slot) := do
  match ← Cursor.next with
  | .quoted prompt => do
    expect (.delimiter .comma) .badSyntax
    return (prompt, ← slotOf (← Cursor.next))
  | t => return ("? ", ← slotOf t)

/-! ### Printing -/

/-- The text of the printed item that starts with the token `t`. -/
def item (m : Memory) : Token → Reading String
  | .quoted s => return s
  | _ => do
    pushBack
    return Number.text (← expression m)

/-- A line padded with blanks, at least one, to the next column that is a multiple of
eight. -/
def tabbed (line : String) : String :=
  line ++ String.ofList (List.replicate (8 - line.length % 8) ' ')

/-- The line printed after the text `line`, with up to `n` more items; it is ended unless
it ends with a separator. -/
def items (m : Memory) : (n : Nat) → (line : String) → (separated : Bool) → Reading String
  | 0, _, _ => fail .badSyntax
  | n + 1, line, separated => do
    let t ← Cursor.next
    if t.isEnd then
      return if separated then line else line ++ "\n"
    else
      let line := line ++ (← item m t)
      match ← Cursor.next with
      | .delimiter .comma => items m n (tabbed line) true
      | .delimiter .semicolon => items m n (line ++ " ") true
      | .endOfLine | .endOfProgram => return line ++ "\n"
      | _ => fail .badSyntax

/-- The text printed; every item takes up characters, which limits their number. -/
def printed (m : Memory) : Reading String := do
  let n := (← get).remaining
  items m (n + 1) "" false

end LineBasic.Reading
