import LineBasic.Line
import Mathlib.Tactic.Use

/-!
# The lines of a text

A text is split at its terminators.  Measures of the first line and counts of terminators are
then measures and counts of what a text is split into.
-/

namespace LineBasic.Line

/-- The lines of a text, without their terminators; there is at least one. -/
def split : List Char → List (List Char)
  | [] => [[]]
  | '\r' :: '\n' :: cs => [] :: split cs
  | c :: cs => if isEnd c then [] :: split cs else (split cs).modifyHead (c :: ·)

/-! ### The first character -/

/-- A terminator at the head of a text has one character or two, and one only if it is not the
first half of a longer one. -/
theorem split_of_isEnd {c : Char} {cs : List Char} (hc : isEnd c = true) :
  split (c :: cs) = [] :: split ((c :: cs).drop (terminator (c :: cs)))
  := by
  rw [split.eq_def]
  split
  · contradiction
  · next heq =>
    cases heq
    rfl
  · next hcr heq =>
    cases heq
    rw [if_pos hc, terminator, if_pos hc]
    · rfl
    · apply hcr

/-- Any other character belongs to the first line. -/
theorem split_of_not_isEnd {c : Char} {cs : List Char} (hc : isEnd c = false) :
  split (c :: cs) = (split cs).modifyHead (c :: ·)
  := by
  rw [split.eq_def]
  split
  · contradiction
  · next heq =>
    cases heq
    contradiction
  · next heq =>
    cases heq
    rw [if_neg]
    rw [hc]
    apply Bool.false_ne_true

theorem exists_split (cs : List Char) :
  ∃ l ls, split cs = l :: ls
  := by
  induction cs with
  | nil => use [], []; rfl
  | cons c cs ih =>
    cases hc : isEnd c with
    | true => exact ⟨_, _, split_of_isEnd hc⟩
    | false =>
      obtain ⟨l, ls, h⟩ := ih
      use c :: l, ls
      rw [split_of_not_isEnd hc, h]
      rfl

theorem split_ne_nil (cs : List Char) :
  split cs ≠ []
  := by
  obtain ⟨l, ls, h⟩ := exists_split cs
  rw [h]
  apply List.cons_ne_nil

/-! ### The first line -/

/-- What follows the first line of a text, and the lines that are still to come in it. -/
inductive Over : List Char → List (List Char) → Prop
  /-- The text ends. -/
  | last : Over [] []
  /-- A terminator follows, and lines after it. -/
  | more {c : Char} {cs : List Char} (hc : isEnd c = true) :
    Over (c :: cs) (split ((c :: cs).drop (terminator (c :: cs))))

/-- A text is its first line and what follows. -/
theorem exists_over {cs l : List Char} {ls : List (List Char)} (h : split cs = l :: ls) :
  ∃ r, cs = l ++ r ∧ (∀ c ∈ l, isEnd c = false) ∧ Over r ls
  := by
  induction cs generalizing l with
  | nil =>
    cases h
    use []
    exact ⟨rfl, by simp, .last⟩
  | cons c cs ih =>
    cases hc : isEnd c with
    | true =>
      rw [split_of_isEnd hc] at h
      cases h
      use c :: cs
      exact ⟨rfl, by simp, .more hc⟩
    | false =>
      obtain ⟨l', ls', h'⟩ := exists_split cs
      rw [split_of_not_isEnd hc, h'] at h
      cases h
      obtain ⟨r, rfl, hl, hr⟩ := ih h'
      use r
      refine ⟨rfl, ?_, hr⟩
      intro d hd
      rcases List.mem_cons.mp hd with rfl | hd
      · apply hc
      · apply hl d hd

/-- A line and what follows it are split again. -/
theorem split_append {l r : List Char} {ls : List (List Char)} (hl : ∀ c ∈ l, isEnd c = false)
    (hr : Over r ls) :
  split (l ++ r) = l :: ls
  := by
  induction l with
  | nil =>
    cases hr with
    | last => rfl
    | more hc => apply split_of_isEnd hc
  | cons c l ih =>
    rw [List.forall_mem_cons] at hl
    rw [List.cons_append, split_of_not_isEnd hl.1, ih hl.2]
    rfl

/-- Dropping characters of the first line leaves the lines after it as they are. -/
theorem split_drop {cs l : List Char} {ls : List (List Char)} {n : Nat}
    (h : split cs = l :: ls) (hn : n ≤ l.length) :
  split (cs.drop n) = l.drop n :: ls
  := by
  obtain ⟨r, rfl, hl, hr⟩ := exists_over h
  rw [List.drop_append_of_le_length hn]
  apply split_append _ hr
  intro c hc
  apply hl c (List.mem_of_mem_drop hc)

private theorem length_append {l r : List Char} {ls : List (List Char)}
    (hl : ∀ c ∈ l, isEnd c = false) (hr : Over r ls) :
  length (l ++ r) = l.length + terminator r
  := by
  induction l with
  | nil =>
    cases hr with
    | last => rfl
    | more hc => rw [List.nil_append, length, if_pos hc, List.length_nil, Nat.zero_add]
  | cons c l ih =>
    rw [List.forall_mem_cons] at hl
    rw [List.cons_append, length, hl.1, if_neg Bool.false_ne_true, ih hl.2, List.length_cons]
    omega

/-- After the first line, its terminator included, the lines after it are left, or an empty
text. -/
theorem split_drop_length {cs l : List Char} {ls : List (List Char)} (h : split cs = l :: ls) :
  split (cs.drop (length cs)) = if ls = [] then [[]] else ls
  := by
  obtain ⟨r, rfl, hl, hr⟩ := exists_over h
  rw [length_append hl hr, List.drop_length_add_append]
  cases hr with
  | last => rfl
  | more hc => rw [if_neg (split_ne_nil _)]

/-! ### Counting lines -/

/-- The lines that are left from an offset on are those that do not end before it. -/
theorem length_split_drop (n : Nat) (cs : List Char) :
  (split (cs.drop n)).length + breaks n cs = (split cs).length
  := by
  induction cs using split.induct generalizing n with
  | case1 => cases n <;> simp [breaks]
  | case2 cs ih =>
    match n with
    | 0 => rfl
    | 1 => simp [breaks, split, isEnd]
    | n + 2 =>
      have hn := ih n
      simp [breaks, split]
      omega
  | case3 c cs hcr hc ih =>
    match n with
    | 0 => rfl
    | n + 1 =>
      have hn := ih n
      have hbreak : c = '\n' ∨ c = '\r' ∧ cs.head? ≠ some '\n' := by
        simp only [isEnd, Bool.or_eq_true, decide_eq_true_eq] at hc
        rcases hc with rfl | rfl
        · apply Or.inr
          constructor
          · rfl
          · intro hhead
            obtain ⟨ds, rfl⟩ := List.head?_eq_some_iff.mp hhead
            apply hcr ds rfl rfl
        · apply Or.inl rfl
      rw [split.eq_3 _ _ hcr, if_pos hc, breaks, if_pos hbreak, List.drop_succ_cons,
        List.length_cons]
      omega
  | case4 c cs hcr hc ih =>
    match n with
    | 0 => rfl
    | n + 1 =>
      have hn := ih n
      have hbreak : ¬ (c = '\n' ∨ c = '\r' ∧ cs.head? ≠ some '\n') := by
        rintro (rfl | ⟨rfl, -⟩)
        · apply hc rfl
        · apply hc rfl
      rw [split.eq_3 _ _ hcr, if_neg hc, breaks, if_neg hbreak, List.drop_succ_cons,
        List.length_modifyHead]
      omega

/-! ### One convention for all terminators -/

/-- The spellings of a terminator. -/
inductive Terminator where
  | carriageReturn
  | lineFeed
  | both
  deriving DecidableEq, Repr

/-- The characters of a terminator. -/
def Terminator.chars : Terminator → List Char
  | carriageReturn => ['\r']
  | lineFeed => ['\n']
  | both => ['\r', '\n']

/-- A terminator is measured as a whole, unless a carriage return is put before a line feed. -/
theorem Terminator.terminator_append (e : Terminator) {cs : List Char}
    (h : e = .carriageReturn → cs.head? ≠ some '\n') :
  terminator (e.chars ++ cs) = e.chars.length
  := by
  cases e with
  | both => rfl
  | lineFeed => rfl
  | carriageReturn =>
    rw [chars, List.singleton_append, terminator_cons, if_neg]
    · rfl
    · rintro ⟨-, hhead⟩
      apply h rfl hhead

/-- A terminator ends a line, unless a carriage return is put before a line feed. -/
theorem Terminator.over (e : Terminator) {cs : List Char}
    (h : e = .carriageReturn → cs.head? ≠ some '\n') :
  Over (e.chars ++ cs) (split cs)
  := by
  have hdrop : (e.chars ++ cs).drop (terminator (e.chars ++ cs)) = cs := by
    rw [e.terminator_append h, List.drop_left]
  have hover : Over (e.chars ++ cs) (split ((e.chars ++ cs).drop (terminator (e.chars ++ cs)))) := by
    cases e with
    | carriageReturn | lineFeed | both => exact .more rfl
  rw [hdrop] at hover
  apply hover

/-- Lines with carriage returns between them do not start with a line feed. -/
private theorem head?_intercalate {ls : List (List Char)}
    (hls : ∀ l ∈ ls, ∀ c ∈ l, isEnd c = false) :
  (Terminator.carriageReturn.chars.intercalate ls).head? ≠ some '\n'
  := by
  cases ls with
  | nil => simp
  | cons l ls =>
    rw [List.forall_mem_cons] at hls
    cases l with
    | nil => cases ls <;> simp [Terminator.chars]
    | cons c l =>
      have hc := hls.1 c List.mem_cons_self
      rw [List.intercalate_cons_cons_left, List.head?_cons]
      intro heq
      cases heq
      contradiction

/-- Lines are what they are split into again, whichever terminator is put between them. -/
theorem split_intercalate (e : Terminator) {ls : List (List Char)} (hne : ls ≠ [])
    (hls : ∀ l ∈ ls, ∀ c ∈ l, isEnd c = false) :
  split (e.chars.intercalate ls) = ls
  := by
  induction ls with
  | nil => contradiction
  | cons l ls ih =>
    rw [List.forall_mem_cons] at hls
    cases ls with
    | nil =>
      have hlast := split_append hls.1 .last
      rw [List.append_nil] at hlast
      rw [List.intercalate_singleton, hlast]
    | cons k ks =>
      rw [List.intercalate_cons_cons, List.append_assoc, split_append hls.1 (e.over _)]
      · rw [ih (List.cons_ne_nil k ks) hls.2]
      · rintro rfl
        apply head?_intercalate hls.2

end LineBasic.Line
