import LineBasic.Fault

/-!
# Bounded stacks

A stack holds at most `Stack.limit` frames.  Its role says which faults it raises: pushing on
a full stack is out of memory, with the detail of the role, and popping an empty one is the
fault of a statement without the one that it closes.
-/

namespace LineBasic

/-- What a stack is for, as told by the faults it raises. -/
structure Stack.Role where
  overflow : String
  underflow : Fault.Kind
  deriving DecidableEq, Repr

/-- A stack of frames, the top first, with their number. -/
structure Stack (role : Stack.Role) (α : Type) where
  frames : List α
  size : Nat
  size_eq : size = frames.length

namespace Stack

variable {role : Role} {α : Type}

/-- The number of frames that a stack can hold. -/
def limit : Nat :=
  65535

/-- The stack without frames. -/
def empty : Stack role α :=
  ⟨[], 0, rfl⟩

/-- The stack has no frames. -/
def isEmpty (s : Stack role α) : Bool :=
  s.frames.isEmpty

/-- The frame at the top. -/
def top? (s : Stack role α) : Option α :=
  s.frames.head?

/-- The stack with one more frame, unless it is full. -/
def push (s : Stack role α) (a : α) : Except Fault (Stack role α) :=
  if limit ≤ s.size then
    .error (Fault.of .outOfMemory role.overflow)
  else
    .ok ⟨a :: s.frames, s.size + 1, by simp [s.size_eq]⟩

/-- The frame at the top and the stack below it, unless the stack is empty. -/
def pop (s : Stack role α) : Except Fault (α × Stack role α) :=
  match s with
  | ⟨[], _, _⟩ => .error (Fault.of role.underflow)
  | ⟨a :: frames, n, h⟩ => .ok (a, ⟨frames, n - 1, by simp [h]⟩)

/-- The frames in brackets, from the bottom to the top. -/
def inspect [ToString α] (s : Stack role α) : String :=
  "[" ++ ", ".intercalate (s.frames.reverse.map toString) ++ "]"

/-- A stack is determined by its frames. -/
theorem ext {s t : Stack role α} (h : s.frames = t.frames) :
  s = t
  := by
  obtain ⟨fs, m, hs⟩ := s
  obtain ⟨gs, n, ht⟩ := t
  subst hs ht
  cases h
  rfl

end Stack

end LineBasic
