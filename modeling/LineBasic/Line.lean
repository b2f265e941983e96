/-!
# Lines

A text is divided into lines by terminators: a carriage return, a line feed, or both in
this order, which count as one.  `Line.terminator` and `Line.length` measure the terminator
and the line at the head of a text.  `Line.breaks n` counts the terminators whose last
character is among the first `n` characters of a text; the line that holds an offset is
numbered by the terminators before it, from 1 on.
-/

namespace LineBasic

/-- Blanks separate tokens and stand for nothing. -/
def isBlank (c : Char) : Bool :=
  c = ' ' || c = '\t'

namespace Line

/-- A character that belongs to a terminator. -/
def isEnd (c : Char) : Bool :=
  c = '\r' || c = '\n'

/-- The number of characters of the terminator at the head of a text, zero if there is
none. -/
def terminator : List Char → Nat
  | '\r' :: '\n' :: _ => 2
  | c :: _ => if isEnd c then 1 else 0
  | [] => 0

/-- The number of characters of the first line of a text, its terminator included. -/
def length : List Char → Nat
  | [] => 0
  | c :: cs => if isEnd c then terminator (c :: cs) else length cs + 1

/-- The number of terminators that end within the first `n` characters of a text. -/
def breaks : (n : Nat) → List Char → Nat
  | 0, _ => 0
  | _ + 1, [] => 0
  | n + 1, c :: cs =>
    breaks n cs + if c = '\n' ∨ (c = '\r' ∧ cs.head? ≠ some '\n') then 1 else 0

/-- A carriage return and a line feed after it are one terminator; any other character of a
terminator is one by itself. -/
theorem terminator_cons (c : Char) (cs : List Char) :
  terminator (c :: cs) =
    if c = '\r' ∧ cs.head? = some '\n' then 2 else if isEnd c then 1 else 0
  := by
  rw [terminator.eq_def]
  split
  · next heq =>
    cases heq
    rfl
  · next hcr heq =>
    cases heq
    symm
    apply if_neg
    rintro ⟨rfl, hhead⟩
    obtain ⟨r, rfl⟩ := List.head?_eq_some_iff.mp hhead
    apply hcr r rfl rfl
  · contradiction

end Line

end LineBasic
