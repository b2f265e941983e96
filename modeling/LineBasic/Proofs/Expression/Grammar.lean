import LineBasic.Expression
import LineBasic.Proofs.Expression.Rule

/-!
# The grammar of expressions

An expression is a derivation tree.  Each part of the grammar binds more than the part before
it: comparisons of sums, sums of products, products of powers, powers of signed primaries,
and primaries, which are numbers, names and comparisons in parentheses.  Sums and products
group to the left, comparisons and powers to the right, and a primary has one sign at most.

A tree has the tokens that it is written with and, given the numbers in memory, a value.  It
is `Defined` when all its numbers are numbers and nothing in it is divided by zero; the value
of any other tree means nothing.
-/

namespace LineBasic.Expression

/-- The parts of the grammar. -/
inductive Part where
  | comparison
  | sum
  | product
  | power
  | signed
  | primary
  deriving DecidableEq, Repr

/-- The derivation trees of a part. -/
inductive Tree : Part → Type where
  | ofSum (a : Tree .sum) : Tree .comparison
  | compare (a : Tree .sum) (d : Delimiter) (hd : d.isRelational = true)
    (b : Tree .comparison) : Tree .comparison
  | ofProduct (a : Tree .product) : Tree .sum
  | add (a : Tree .sum) (d : Delimiter) (hd : d.isAdditive = true) (b : Tree .product) :
    Tree .sum
  | ofPower (a : Tree .power) : Tree .product
  | multiply (a : Tree .product) (d : Delimiter) (hd : d.isMultiplicative = true)
    (b : Tree .power) : Tree .product
  | ofSigned (a : Tree .signed) : Tree .power
  | raise (a : Tree .signed) (b : Tree .power) : Tree .power
  | ofPrimary (a : Tree .primary) : Tree .signed
  | plus (a : Tree .primary) : Tree .signed
  | minus (a : Tree .primary) : Tree .signed
  | parenthesized (a : Tree .comparison) : Tree .primary
  | number (s : String) : Tree .primary
  | name (s : String) : Tree .primary

/-- What a relational operator says of two numbers. -/
def holds : Delimiter → Float → Float → Bool
  | .less, x, y => x < y
  | .lessEqual, x, y => x ≤ y
  | .greater, x, y => x > y
  | .greaterEqual, x, y => x ≥ y
  | .equal, x, y => x == y
  | _, x, y => x != y

/-- The sum or, for a minus sign, the difference of two numbers. -/
def added : Delimiter → Float → Float → Float
  | .plus, x, y => x + y
  | _, x, y => x - y

/-- The product of two numbers, their quotient or their remainder. -/
def multiplied : Delimiter → Float → Float → Float
  | .multiply, x, y => x * y
  | .divide, x, y => x / y
  | _, x, y => Number.remainder x y

namespace Tree

variable {p : Part}

/-- The tokens that a tree is written with. -/
def tokens : {p : Part} → Tree p → List Token
  | _, ofSum a | _, ofProduct a | _, ofPower a | _, ofSigned a | _, ofPrimary a => a.tokens
  | _, compare a d _ b => a.tokens ++ .delimiter d :: b.tokens
  | _, add a d _ b => a.tokens ++ .delimiter d :: b.tokens
  | _, multiply a d _ b => a.tokens ++ .delimiter d :: b.tokens
  | _, raise a b => a.tokens ++ .delimiter .caret :: b.tokens
  | _, plus a => .delimiter .plus :: a.tokens
  | _, minus a => .delimiter .minus :: a.tokens
  | _, parenthesized a => .delimiter .openParen :: (a.tokens ++ [.delimiter .closeParen])
  | _, number s => [.number s]
  | _, name s => [.name s]

/-- The value of a tree. -/
def value (m : Memory) : {p : Part} → Tree p → Float
  | _, ofSum a | _, ofProduct a | _, ofPower a | _, ofSigned a | _, ofPrimary a => a.value m
  | _, compare a d _ b => if holds d (a.value m) (b.value m) then 1.0 else 0.0
  | _, add a d _ b => added d (a.value m) (b.value m)
  | _, multiply a d _ b => multiplied d (a.value m) (b.value m)
  | _, raise a b => Number.power (a.value m) (b.value m)
  | _, plus a => a.value m
  | _, minus a => -a.value m
  | _, parenthesized a => a.value m
  | _, number s => (Number.ofText? s).getD 0.0
  | _, name s => ((Slot.ofName? s).map m.fetch).getD 0.0

/-- All numbers of a tree have a value, and no right operand of a division or a remainder
is zero. -/
def Defined (m : Memory) : {p : Part} → Tree p → Prop
  | _, ofSum a | _, ofProduct a | _, ofPower a | _, ofSigned a | _, ofPrimary a => a.Defined m
  | _, compare a _ _ b => a.Defined m ∧ b.Defined m
  | _, add a _ _ b => a.Defined m ∧ b.Defined m
  | _, multiply a d _ b =>
    a.Defined m ∧ b.Defined m ∧ (d = .divide ∨ d = .modulus → (b.value m == 0.0) = false)
  | _, raise a b => a.Defined m ∧ b.Defined m
  | _, plus a | _, minus a => a.Defined m
  | _, parenthesized a => a.Defined m
  | _, number s => (Number.ofText? s).isSome
  | _, name _ => True

/-- A tree is written with a token at least. -/
theorem tokens_ne_nil (a : Tree p) :
  a.tokens ≠ []
  := by
  induction a with
  | ofSum a ih | ofProduct a ih | ofPower a ih | ofSigned a ih | ofPrimary a ih => apply ih
  | compare | add | multiply | raise => simp [tokens]
  | plus | minus | parenthesized | number | name => simp [tokens]

/-- No token that ends a statement is part of an expression. -/
theorem isEnd_of_mem_tokens (a : Tree p) {t : Token} (ht : t ∈ a.tokens) :
  t.isEnd = false
  := by
  induction a with
  | ofSum a ih | ofProduct a ih | ofPower a ih | ofSigned a ih | ofPrimary a ih => apply ih ht
  | compare a d _ b iha ihb | add a d _ b iha ihb | multiply a d _ b iha ihb
    | raise a b iha ihb =>
    simp only [tokens, List.mem_append, List.mem_cons] at ht
    rcases ht with ht | rfl | ht
    · apply iha ht
    · rfl
    · apply ihb ht
  | plus a ih | minus a ih =>
    rcases List.mem_cons.mp ht with rfl | ht
    · rfl
    · apply ih ht
  | parenthesized a ih =>
    simp only [tokens, List.mem_cons, List.mem_append, List.not_mem_nil, or_false] at ht
    rcases ht with rfl | ht | rfl
    · rfl
    · apply ih ht
    · rfl
  | number s | name s =>
    obtain rfl := List.mem_singleton.mp ht
    rfl

end Tree

/-! ### The values of operators -/

/-- Any two numbers can be compared. -/
theorem value?_of_isRelational {d : Delimiter} (hd : d.isRelational = true) (x y : Float) :
  d.value? x y = some (if holds d x y then 1.0 else 0.0)
  := by
  cases d <;> first | rfl | contradiction

/-- Any two numbers can be added and subtracted. -/
theorem value?_of_isAdditive {d : Delimiter} (hd : d.isAdditive = true) (x y : Float) :
  d.value? x y = some (added d x y)
  := by
  cases d <;> first | rfl | contradiction

/-- Any two numbers can be multiplied, and divided unless the divisor is zero. -/
theorem value?_eq_some_iff_of_isMultiplicative {d : Delimiter} (hd : d.isMultiplicative = true)
    {x y z : Float} :
  d.value? x y = some z
    ↔ (d = .divide ∨ d = .modulus → (y == 0.0) = false) ∧ multiplied d x y = z
  := by
  cases d with
  | multiply => simp [Delimiter.value?, multiplied]
  | divide => cases hy : y == 0.0 <;> simp [Delimiter.value?, multiplied, hy]
  | modulus => cases hy : y == 0.0 <;> simp [Delimiter.value?, multiplied, hy]
  | _ => contradiction

theorem isCaret_iff {d : Delimiter} :
  d.isCaret = true ↔ d = .caret
  := by
  cases d <;> decide

/-! ### What follows a part -/

/-- The operators that a part goes on with: its own, and those of the parts that bind more. -/
def Part.goesOn : Part → Delimiter → Bool
  | comparison, d => d.isRelational || (d.isAdditive || (d.isMultiplicative || d.isCaret))
  | sum, d => d.isAdditive || (d.isMultiplicative || d.isCaret)
  | product, d => d.isMultiplicative || d.isCaret
  | power, d => d.isCaret
  | signed, _ | primary, _ => false

/-- All operators. -/
def operators : List Delimiter :=
  [.plus, .minus, .multiply, .divide, .modulus, .caret, .equal, .less, .lessEqual, .greater,
    .greaterEqual, .notEqual]

/-- A token ends an expression exactly when it is no operator. -/
theorem isOperator_comparison_eq_false_iff {f : Token} :
  f.isOperator Part.comparison.goesOn = false ↔ ∀ d ∈ operators, f ≠ .delimiter d
  := by
  cases f with
  | delimiter d => cases d <;> simp [Token.isOperator, Part.goesOn, operators,
      Delimiter.isRelational, Delimiter.isAdditive, Delimiter.isMultiplicative,
      Delimiter.isCaret]
  | name | number | keyword | quoted | endOfLine | endOfProgram =>
    simp [Token.isOperator]

end LineBasic.Expression
