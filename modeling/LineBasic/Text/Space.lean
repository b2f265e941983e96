/-!
# White space

The characters with the Unicode property of white space, and texts without any of them at
either end.
-/

namespace LineBasic

/-- The characters that count as white space around what is entered. -/
def isSpace (c : Char) : Bool :=
  let n := c.toNat
  (0x9 ≤ n && n ≤ 0xd) || n = 0x20 || n = 0x85 || n = 0xa0 || n = 0x1680
    || (0x2000 ≤ n && n ≤ 0x200a) || n = 0x2028 || n = 0x2029 || n = 0x202f || n = 0x205f
    || n = 0x3000

/-- A text without the white space at its ends. -/
def trimmed (cs : List Char) : List Char :=
  ((cs.dropWhile isSpace).reverse.dropWhile isSpace).reverse

/-- The first text is the second one with white space around it, of which the second one has none
at its ends. -/
structure Surrounds (cs text : List Char) : Prop where
  eq_append : ∃ before after, cs = before ++ (text ++ after) ∧ (∀ c ∈ before, isSpace c = true) ∧
    ∀ c ∈ after, isSpace c = true
  head : ∀ c ∈ text.head?, isSpace c = false
  last : ∀ c ∈ text.getLast?, isSpace c = false

private theorem dropWhile_eq_self {p : Char → Bool} {cs : List Char}
    (h : ∀ c ∈ cs.head?, p c = false) :
  cs.dropWhile p = cs
  := by
  cases cs with
  | nil => rfl
  | cons c cs =>
    have hc := h c rfl
    rw [List.dropWhile_cons, hc, if_neg Bool.false_ne_true]

/-- What is left does not start with a character that is left out in front. -/
theorem not_of_mem_head?_dropWhile {p : Char → Bool} (cs : List Char) {c : Char}
    (h : c ∈ (cs.dropWhile p).head?) :
  p c = false
  := by
  have hnot := List.head?_dropWhile_not p cs
  rw [h] at hnot
  apply hnot

/-- A text without the white space at its ends is the one that white space surrounds in it. -/
theorem trimmed_eq_iff {cs text : List Char} :
  trimmed cs = text ↔ Surrounds cs text
  := by
  constructor
  · rintro rfl
    have hall : ∀ {ds : List Char}, ∀ c ∈ ds.takeWhile isSpace, isSpace c = true := by
      intro ds
      apply List.all_eq_true.mp List.all_takeWhile
    have hrest : cs.dropWhile isSpace =
        trimmed cs ++ ((cs.dropWhile isSpace).reverse.takeWhile isSpace).reverse := by
      rw [trimmed, ← List.reverse_append, List.takeWhile_append_dropWhile, List.reverse_reverse]
    constructor
    · refine ⟨cs.takeWhile isSpace,
        ((cs.dropWhile isSpace).reverse.takeWhile isSpace).reverse, ?_, hall, ?_⟩
      · rw [← hrest, List.takeWhile_append_dropWhile]
      · intro c hc
        apply hall c (List.mem_reverse.mp hc)
    · intro c hc
      apply not_of_mem_head?_dropWhile cs
      rw [hrest, List.head?_append, hc]
      rfl
    · intro c hc
      rw [trimmed, List.getLast?_reverse] at hc
      apply not_of_mem_head?_dropWhile _ hc
  · rintro ⟨⟨before, after, rfl, hbefore, hafter⟩, hhead, hlast⟩
    rw [trimmed, List.dropWhile_append_of_pos hbefore]
    cases text with
    | nil =>
      rw [List.nil_append, ← List.append_nil after, List.dropWhile_append_of_pos hafter]
      rfl
    | cons c text =>
      have hfirst : (c :: text ++ after).dropWhile isSpace = c :: text ++ after :=
        dropWhile_eq_self hhead
      have hafter' : ∀ c ∈ after.reverse, isSpace c = true := by
        intro c hc
        apply hafter c (List.mem_reverse.mp hc)
      rw [hfirst, List.reverse_append, List.dropWhile_append_of_pos hafter', dropWhile_eq_self,
        List.reverse_reverse]
      rw [List.head?_reverse]
      apply hlast

/-- What counts as white space in the narrow sense does so here. -/
theorem isSpace_of_isWhitespace {c : Char} (h : c.isWhitespace) :
  isSpace c
  := by
  simp only [Char.isWhitespace, Bool.or_eq_true, decide_eq_true_eq] at h
  rcases h with ((rfl | rfl) | rfl) | rfl <;> decide

end LineBasic
