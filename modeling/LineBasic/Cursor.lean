import LineBasic.Fault
import LineBasic.Source
import LineBasic.Token.Scan

/-!
# Cursors

A cursor is a place in a source at which tokens are read, one after the other.  It
remembers the length of the token it has just passed, so that this token, and no other, can
be given back.  Whatever else moves the cursor leaves nothing to be given back.

Programs that read tokens live in `Reading`: they move a cursor, and may end in a fault,
which leaves the cursor where it was met.
-/

namespace LineBasic

/-- A place in a source, after a token of the given length. -/
structure Cursor where
  source : Source
  pos : Nat := 0
  last : Nat := 0

/-- What is read by moving a cursor. -/
abbrev Reading :=
  EStateM Fault Cursor

namespace Cursor

/-- The text from the cursor on. -/
def rest (c : Cursor) : List Char :=
  c.source.drop c.pos

/-- The offset of the token just passed, or of the cursor if there is none. -/
def start (c : Cursor) : Nat :=
  c.pos - c.last

/-- The number of the line that holds the offset `n`. -/
def lineOf (c : Cursor) (n : Nat) : Nat :=
  Line.breaks n c.source.chars + 1

/-- The number of characters from the cursor on. -/
def remaining (c : Cursor) : Nat :=
  c.source.size - c.pos

/-- The cursor at the offset `n`, after no token. -/
def jump (c : Cursor) (n : Nat) : Cursor :=
  { c with pos := n, last := 0 }

/-- The cursor before the token just passed. -/
def pushBack (c : Cursor) : Cursor :=
  c.jump c.start

/-- The cursor at the start of the next line, or at the end of the text. -/
def skipLine (c : Cursor) : Cursor :=
  c.jump (c.pos + Line.length c.rest)

/-- The cursor after the blanks that follow it. -/
def skipBlanks (c : Cursor) : Cursor :=
  c.jump (c.pos + (c.rest.takeWhile isBlank).length)

/-- The cursor after a token of length `n`. -/
def pass (c : Cursor) (n : Nat) : Cursor :=
  { c with pos := c.pos + n, last := n }

/-- Reads the next token. -/
def next : Reading Token := fun c =>
  match Token.scan? c.skipBlanks.rest with
  | some (t, n) => .ok t (c.skipBlanks.pass n)
  | none => .error (Fault.of .missingClosingQuote) c.skipBlanks

/-- The outcomes of reading the next token again and again, each with the cursor it leaves,
up to the end of the program, a fault, or `n` of them. -/
def outcomes : (n : Nat) → Cursor → List (Except Fault Token × Cursor)
  | 0, _ => []
  | n + 1, c =>
    match next c with
    | .ok t c' => (.ok t, c') :: if t = .endOfProgram then [] else outcomes n c'
    | .error f c' => [(.error f, c')]

/-- The outcomes of reading all tokens from the cursor on; every token but the last one
takes up a character, so that there is one more of them than characters at most. -/
def allOutcomes (c : Cursor) : List (Except Fault Token × Cursor) :=
  outcomes (c.remaining + 1) c

@[simp]
theorem rest_eq (c : Cursor) :
  c.rest = c.source.chars.drop c.pos
  := c.source.drop_eq c.pos

@[simp]
theorem remaining_eq (c : Cursor) :
  c.remaining = c.source.chars.length - c.pos
  := by
  rw [remaining, c.source.size_eq]

end Cursor

namespace Reading

/-- Gives back the token just passed. -/
def pushBack : Reading Unit :=
  modify Cursor.pushBack

/-- Ends with a fault whose line is not yet known. -/
def fail {α : Type} (kind : Fault.Kind) (detail : String := "") : Reading α :=
  throw (Fault.of kind detail)

end Reading

end LineBasic
