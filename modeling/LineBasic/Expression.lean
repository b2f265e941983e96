import LineBasic.Cursor
import LineBasic.Memory
import LineBasic.Number.Arithmetic
import LineBasic.Number.Numeral

/-!
# Expressions

An expression is evaluated while it is read, with the numbers in memory for its names.
Comparisons bind least, then sums, products and powers.  Sums and products group to the
left, comparisons and powers to the right.  A sign may stand in front of an operand, and
binds more than a power.

Each rule is given the first token of its part, and yields the value of the part together
with the token after it, so that the cursor is always one token ahead.  Rules that come back
to themselves do so a limited number of times; `Reading.evaluate` sets the limit by the
number of characters that are left, which no expression can reach.
-/

namespace LineBasic

/-- One for what holds and zero for what does not. -/
def truth (b : Bool) : Float :=
  if b then 1.0 else 0.0

namespace Delimiter

/-- The value of an operator; a division by zero has none, and neither have the delimiters
that are no operators. -/
def value? : Delimiter → Float → Float → Option Float
  | plus, x, y => some (x + y)
  | minus, x, y => some (x - y)
  | multiply, x, y => some (x * y)
  | divide, x, y => if y == 0.0 then none else some (x / y)
  | modulus, x, y => if y == 0.0 then none else some (Number.remainder x y)
  | caret, x, y => some (Number.power x y)
  | equal, x, y => some (truth (x == y))
  | less, x, y => some (truth (x < y))
  | lessEqual, x, y => some (truth (x ≤ y))
  | greater, x, y => some (truth (x > y))
  | greaterEqual, x, y => some (truth (x ≥ y))
  | notEqual, x, y => some (truth (x != y))
  | comma, _, _ | semicolon, _, _ | openParen, _, _ | closeParen, _, _ => none

/-- The operators of sums. -/
def isAdditive : Delimiter → Bool
  | plus | minus => true
  | _ => false

/-- The operators of products. -/
def isMultiplicative : Delimiter → Bool
  | multiply | divide | modulus => true
  | _ => false

/-- The operator of powers. -/
def isCaret : Delimiter → Bool
  | caret => true
  | _ => false

end Delimiter

/-- A rule of the grammar of expressions: from the first token of a part to its value and the
token after it. -/
abbrev Rule :=
  Token → Reading (Float × Token)

namespace Rule

/-- The value of the operator `d` after its left operand `x`. -/
def apply (operand : Rule) (d : Delimiter) (x : Float) : Reading (Float × Token) := do
  let (y, t) ← operand (← Cursor.next)
  match d.value? x y with
  | some z => return (z, t)
  | none => Reading.fail .divisionByZero

/-- The operators of a kind that follow a value, grouped to the left, up to `n` of them. -/
def chain (isOperator : Delimiter → Bool) (operand : Rule) :
    (n : Nat) → Float × Token → Reading (Float × Token)
  | 0, _ => Reading.fail .badSyntax
  | n + 1, (x, .delimiter d) =>
    if isOperator d then do
      chain isOperator operand n (← operand.apply d x)
    else
      return (x, .delimiter d)
  | _ + 1, (x, t) => return (x, t)

/-- Operands with operators of a kind between them, grouped to the left. -/
def leftward (isOperator : Delimiter → Bool) (operand : Rule) (n : Nat) : Rule := fun t => do
  chain isOperator operand n (← operand t)

/-- Operands with operators of a kind between them, grouped to the right, up to `n` of
them. -/
def rightward (isOperator : Delimiter → Bool) (operand : Rule) : (n : Nat) → Rule
  | 0, _ => Reading.fail .badSyntax
  | n + 1, t => do
    match ← operand t with
    | (x, .delimiter d) =>
      if isOperator d then
        apply (rightward isOperator operand n) d x
      else
        return (x, .delimiter d)
    | (x, t) => return (x, t)

/-- A number or a name. -/
def atom (m : Memory) : Rule
  | .number s =>
    match Number.ofText? s with
    | some x => return (x, ← Cursor.next)
    | none => Reading.fail .badSyntax s
  | .name s =>
    match Slot.ofName? s with
    | some i => return (m.fetch i, ← Cursor.next)
    | none => Reading.fail .notAVariable
  | _ => Reading.fail .badSyntax

/-- An atom, or what is nested in parentheses. -/
def factor (m : Memory) (nested : Rule) : Rule
  | .delimiter .openParen => do
    let (x, t) ← nested (← Cursor.next)
    if t = .delimiter .closeParen then
      return (x, ← Cursor.next)
    else
      Reading.fail .unbalancedParentheses
  | t => atom m t

/-- A factor with an optional sign. -/
def signed (m : Memory) (nested : Rule) : Rule
  | .delimiter .minus => do
    let (x, t) ← factor m nested (← Cursor.next)
    return (-x, t)
  | .delimiter .plus => do factor m nested (← Cursor.next)
  | t => factor m nested t

/-- Powers of signed factors. -/
def powers (m : Memory) (nested : Rule) (n : Nat) : Rule :=
  rightward Delimiter.isCaret (signed m nested) n

/-- Products of powers. -/
def products (m : Memory) (nested : Rule) (n : Nat) : Rule :=
  leftward Delimiter.isMultiplicative (powers m nested n) n

/-- Sums of products. -/
def sums (m : Memory) (nested : Rule) (n : Nat) : Rule :=
  leftward Delimiter.isAdditive (products m nested n) n

/-- Comparisons of sums, the rule for a whole expression and for what is nested in its
parentheses, up to `n` deep. -/
def comparisons (m : Memory) : (n : Nat) → Rule
  | 0, _ => Reading.fail .badSyntax
  | n + 1, t => rightward Delimiter.isRelational (sums m (comparisons m n) (n + 1)) (n + 1) t

end Rule

namespace Reading

/-- Evaluates the expression at the cursor, and leaves the cursor after the first token that
is not part of it. -/
def evaluate (m : Memory) : Reading Float := do
  let t ← Cursor.next
  if t.isEnd then
    fail .noExpression
  else
    let n := (← get).remaining
    return (← Rule.comparisons m (n + 2) t).1

/-- Evaluates the expression at the cursor, and leaves the cursor after it. -/
def expression (m : Memory) : Reading Float := do
  let x ← evaluate m
  pushBack
  return x

end Reading

end LineBasic
