/-!
# Sources

A source is the text of a program, read by offset.  Beside the characters it holds the list
of its tails, so that the text from an offset on is at hand without walking up to it.
-/

namespace LineBasic

/-- The tails of a text, the longest first. -/
def tailsOf : List Char → List (List Char)
  | [] => [[]]
  | c :: cs => (c :: cs) :: tailsOf cs

/-- The text of a program, with all its tails. -/
structure Source where
  chars : List Char
  tails : Array (List Char)
  tails_eq : tails = (tailsOf chars).toArray

namespace Source

/-- The source with the given characters. -/
def ofList (cs : List Char) : Source :=
  ⟨cs, (tailsOf cs).toArray, rfl⟩

/-- The source with the given text. -/
def ofString (s : String) : Source :=
  ofList s.toList

/-- The number of characters. -/
def size (s : Source) : Nat :=
  s.tails.size - 1

/-- The text from an offset on, empty beyond the end. -/
def drop (s : Source) (n : Nat) : List Char :=
  s.tails.getD n []

private theorem length_tailsOf (cs : List Char) :
  (tailsOf cs).length = cs.length + 1
  := by
  induction cs with
  | nil => rfl
  | cons c cs ih => simp [tailsOf, ih]

private theorem getElem?_tailsOf (cs : List Char) (n : Nat) :
  ((tailsOf cs)[n]?).getD [] = cs.drop n
  := by
  induction cs generalizing n with
  | nil => cases n <;> simp [tailsOf]
  | cons c cs ih => cases n <;> simp [tailsOf, ih]

/-- The size is the number of characters. -/
theorem size_eq (s : Source) :
  s.size = s.chars.length
  := by
  simp [size, s.tails_eq, length_tailsOf]

/-- The text from an offset on is what remains after dropping as many characters. -/
theorem drop_eq (s : Source) (n : Nat) :
  s.drop n = s.chars.drop n
  := by
  rw [drop, s.tails_eq, ← getElem?_tailsOf]
  simp [Array.getD_eq_getD_getElem?]

/-- A source is determined by its characters. -/
theorem ext {s t : Source} (h : s.chars = t.chars) :
  s = t
  := by
  obtain ⟨cs, ts, hs⟩ := s
  obtain ⟨ds, us, ht⟩ := t
  subst hs ht
  cases h
  rfl

@[simp]
theorem chars_ofList (cs : List Char) :
  (ofList cs).chars = cs
  := rfl

end Source

end LineBasic
