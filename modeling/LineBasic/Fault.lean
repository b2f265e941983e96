/-!
# Faults

A fault is the reason why a program cannot be read, or cannot go on.  Its kind says what
is wrong, its line says where, once that is known, and its detail names the thing at
fault, such as the label that is missing.  `Fault.message` is the text shown to the person
who runs the program.
-/

namespace LineBasic

/-- The kinds of fault. -/
inductive Fault.Kind where
  | badSyntax
  | unbalancedParentheses
  | noExpression
  | divisionByZero
  | equalSignExpected
  | notAVariable
  | duplicateLabel
  | undefinedLabel
  | thenExpected
  | toExpected
  | nextWithoutFor
  | returnWithoutGosub
  | missingClosingQuote
  | sourceNotFound
  | sourceUnreadable
  | inputUnreadable
  | outOfMemory
  deriving DecidableEq, Repr

namespace Fault.Kind

/-- The words for a kind of fault. -/
def text : Kind → String
  | badSyntax => "SYNTAX ERROR"
  | unbalancedParentheses => "UNBALANCED PARENTHESES"
  | noExpression => "NO EXPRESSION PRESENT"
  | divisionByZero => "DIVISION BY ZERO"
  | equalSignExpected => "EQUAL SIGN EXPECTED"
  | notAVariable => "NOT A VARIABLE"
  | duplicateLabel => "DUPLICATE LABEL"
  | undefinedLabel => "UNDEFINED LABEL"
  | thenExpected => "THEN EXPECTED"
  | toExpected => "TO EXPECTED"
  | nextWithoutFor => "NEXT WITHOUT FOR"
  | returnWithoutGosub => "RETURN WITHOUT GOSUB"
  | missingClosingQuote => "MISSING CLOSING QUOTE"
  | sourceNotFound => "FILE NOT FOUND"
  | sourceUnreadable => "FILE I/O ERROR"
  | inputUnreadable => "INPUT I/O ERROR"
  | outOfMemory => "OUT OF MEMORY"

/-- The number of a kind of fault, from 1 on. -/
def number (k : Kind) : Nat :=
  k.ctorIdx + 1

end Fault.Kind

/-- A fault of a kind, in a line if the line is known, with a detail or the empty text. -/
structure Fault where
  kind : Fault.Kind
  line? : Option Nat := none
  detail : String := ""
  deriving DecidableEq, Repr

namespace Fault

/-- The fault of a kind in a line not yet known. -/
def of (kind : Kind) (detail : String := "") : Fault :=
  { kind, detail }

/-- The fault, known to be in line `n`. -/
def inLine (f : Fault) (n : Nat) : Fault :=
  { f with line? := some n }

/-- The fault, placed in line `n` unless its line is known already. -/
def orInLine (f : Fault) (n : Nat) : Fault :=
  { f with line? := some (f.line?.getD n) }

/-- The words of the kind, followed by the line and the detail as far as there are any. -/
def message (f : Fault) : String :=
  f.kind.text
    ++ (match f.line? with
      | some n => " IN LINE " ++ toString n
      | none => "")
    ++ if f.detail.isEmpty then "" else "; " ++ f.detail

/-- The message set off as the display of a fault among other values. -/
def inspect (f : Fault) : String :=
  "Error \x7b " ++ f.message ++ " \x7d"

@[simp]
theorem kind_inLine (f : Fault) (n : Nat) :
  (f.inLine n).kind = f.kind
  := rfl

@[simp]
theorem kind_orInLine (f : Fault) (n : Nat) :
  (f.orInLine n).kind = f.kind
  := rfl

@[simp]
theorem detail_orInLine (f : Fault) (n : Nat) :
  (f.orInLine n).detail = f.detail
  := rfl

/-- Every fault that has been placed has a line. -/
theorem isSome_line?_orInLine (f : Fault) (n : Nat) :
  (f.orInLine n).line?.isSome
  := rfl

end Fault

end LineBasic
