import LineBasic.Line
import Mathlib.Data.Nat.Count
import Mathlib.Tactic.Use

/-!
# Where lines start

A line starts at the beginning of the text and after every terminator, but not between the two
characters of one.  Offsets with no character of a terminator between them are joined: they are
in the same line, and the same line follows them.
-/

namespace LineBasic.Line

/-- An offset at which a line starts: that of the text, or one that follows a terminator and
does not divide it. -/
inductive Start (cs : List Char) : Nat → Prop
  | first : Start cs 0
  | next {n : Nat} {c : Char} (hget : cs[n]? = some c) (hc : isEnd c = true)
    (hcr : c = '\r' → cs[n + 1]? ≠ some '\n') : Start cs (n + 1)

/-- The first offset is not after the second, and no character from the first up to the second
belongs to a terminator. -/
structure Joined (cs : List Char) (n n' : Nat) : Prop where
  le : n ≤ n'
  isEnd_eq : ∀ i c, n ≤ i → i < n' → cs[i]? = some c → isEnd c = false

/-- The offset after the line that holds the offset `n`, its terminator included. -/
def following (cs : List Char) (n : Nat) : Nat :=
  n + length (cs.drop n)

variable {cs : List Char} {a b b' n n' n'' : Nat}

/-- No blank belongs to a terminator. -/
theorem isEnd_of_isBlank {c : Char} (h : isBlank c = true) :
  isEnd c = false
  := by
  simp only [isBlank, Bool.or_eq_true, decide_eq_true_eq] at h
  rcases h with rfl | rfl
  all_goals rfl

/-! ### Joined offsets -/

theorem Joined.refl (cs : List Char) (n : Nat) :
  Joined cs n n
  where
  le := Nat.le_refl n
  isEnd_eq _ _ hle hlt _ := absurd hlt (Nat.not_lt_of_le hle)

theorem Joined.trans (h : Joined cs n n') (h' : Joined cs n' n'') :
  Joined cs n n''
  where
  le := Nat.le_trans h.le h'.le
  isEnd_eq i c hle hlt hget := by
    rcases Nat.lt_or_ge i n' with hi | hi
    · apply h.isEnd_eq i c hle hi hget
    · apply h'.isEnd_eq i c hi hlt hget

/-- What is joined with an offset is joined with those in between. -/
theorem Joined.left (h : Joined cs n n'') (hle : n ≤ n') (hle' : n' ≤ n'') :
  Joined cs n n'
  where
  le := hle
  isEnd_eq i c hi hlt := h.isEnd_eq i c hi (Nat.lt_of_lt_of_le hlt hle')

/-- Offsets are joined by characters that belong to no terminator. -/
theorem joined_add {k : Nat} (h : ∀ c ∈ (cs.drop n).take k, isEnd c = false) :
  Joined cs n (n + k)
  where
  le := Nat.le_add_right n k
  isEnd_eq i c hle hlt hget := by
    obtain ⟨j, rfl⟩ := Nat.exists_eq_add_of_le hle
    apply h
    apply List.mem_of_getElem? (i := j)
    rw [List.getElem?_take_of_lt (by omega), List.getElem?_drop, hget]

/-- One more character is counted as a terminator if it is the last one of a terminator. -/
theorem breaks_succ (n : Nat) (cs : List Char) :
  breaks (n + 1) cs = breaks n cs +
    if cs[n]? = some '\n' ∨ (cs[n]? = some '\r' ∧ cs[n + 1]? ≠ some '\n') then 1 else 0
  := by
  induction cs generalizing n with
  | nil => cases n <;> simp [breaks]
  | cons c cs ih =>
    cases n with
    | zero => simp [breaks, List.head?_eq_getElem?]
    | succ n =>
      rw [breaks, ih, breaks]
      simp only [List.getElem?_cons_succ]
      omega

/-- Joined offsets are in lines with the same number. -/
theorem Joined.breaks_eq (h : Joined cs n n') :
  breaks n' cs = breaks n cs
  := by
  obtain ⟨k, rfl⟩ := Nat.exists_eq_add_of_le h.le
  induction k with
  | zero => rfl
  | succ k ih =>
    have hk : Joined cs n (n + k) := h.left (Nat.le_add_right n k) (Nat.le_succ _)
    have hend : ∀ c, cs[n + k]? = some c → isEnd c = false := by
      intro c hget
      apply h.isEnd_eq (n + k) c (Nat.le_add_right n k) (Nat.lt_succ_self _) hget
    rw [← Nat.add_assoc, breaks_succ, ih hk, if_neg, Nat.add_zero]
    rintro (hget | ⟨hget, -⟩)
    · cases hend _ hget
    · cases hend _ hget

/-! ### The line that follows -/

/-- At the end of the text no line follows. -/
theorem following_of_length_le (h : cs.length ≤ n) :
  following cs n = n
  := by
  rw [following, List.drop_eq_nil_of_le h, length, Nat.add_zero]

/-- A terminator is followed by the next line. -/
theorem following_of_isEnd {c : Char} (hget : cs[n]? = some c) (hc : isEnd c = true) :
  following cs n = n + terminator (cs.drop n)
  := by
  obtain ⟨hlt, rfl⟩ := List.getElem?_eq_some_iff.mp hget
  rw [following, List.drop_eq_getElem_cons hlt, length, if_pos hc]

/-- Any other character is followed by what follows the offset after it. -/
theorem following_succ {c : Char} (hget : cs[n]? = some c) (hc : isEnd c = false) :
  following cs (n + 1) = following cs n
  := by
  obtain ⟨hlt, rfl⟩ := List.getElem?_eq_some_iff.mp hget
  rw [following, following, List.drop_eq_getElem_cons hlt, length, hc, if_neg Bool.false_ne_true]
  omega

/-- Joined offsets are followed by the same line. -/
theorem Joined.following_eq (h : Joined cs n n') (hle : n' ≤ cs.length) :
  following cs n' = following cs n
  := by
  obtain ⟨k, rfl⟩ := Nat.exists_eq_add_of_le h.le
  induction k with
  | zero => rfl
  | succ k ih =>
    have hk : Joined cs n (n + k) := h.left (Nat.le_add_right n k) (Nat.le_succ _)
    have hget : cs[n + k]? = some cs[n + k] := List.getElem?_eq_getElem (by omega)
    have hend := h.isEnd_eq (n + k) _ (Nat.le_add_right n k) (Nat.lt_succ_self _) hget
    rw [← Nat.add_assoc, following_succ hget hend, ih hk (by omega)]

/-- A terminator has one character, or two if they are a carriage return and a line feed. -/
theorem terminator_cases {c : Char} (hget : cs[n]? = some c) (hc : isEnd c = true) :
  (terminator (cs.drop n) = 2 ∧ c = '\r' ∧ cs[n + 1]? = some '\n') ∨
    (terminator (cs.drop n) = 1 ∧ (c = '\r' → cs[n + 1]? ≠ some '\n'))
  := by
  obtain ⟨hlt, rfl⟩ := List.getElem?_eq_some_iff.mp hget
  have hhead : (cs.drop (n + 1)).head? = cs[n + 1]? := by
    rw [List.head?_drop]
  rw [List.drop_eq_getElem_cons hlt, terminator_cons, hhead, if_pos hc]
  split
  · next hpair => exact .inl ⟨rfl, hpair⟩
  · next hpair => exact .inr ⟨rfl, fun hret hlf => hpair ⟨hret, hlf⟩⟩

/-- Before the end of the text the next line follows later. -/
theorem lt_following (h : n < cs.length) :
  n < following cs n
  := by
  have hget : cs[n]? = some cs[n] := List.getElem?_eq_getElem h
  cases hc : isEnd cs[n] with
  | false =>
    rw [← following_succ hget hc]
    apply Nat.lt_of_succ_le (Nat.le_add_right _ _)
  | true =>
    rw [following_of_isEnd hget hc]
    rcases terminator_cases hget hc with ⟨htwo, -, -⟩ | ⟨hone, -⟩
    all_goals omega

/-- The next line starts where it follows, unless the text ends. -/
theorem start_following (hle : n ≤ cs.length) :
  Start cs (following cs n) ∨ following cs n = cs.length
  := by
  obtain ⟨k, hk⟩ := Nat.exists_eq_add_of_le hle
  induction k generalizing n with
  | zero =>
    apply Or.inr
    rw [following_of_length_le (by omega)]
    omega
  | succ k ih =>
    have hget : cs[n]? = some cs[n] := List.getElem?_eq_getElem (by omega)
    cases hc : isEnd cs[n] with
    | false =>
      rw [← following_succ hget hc]
      apply ih <;> omega
    | true =>
      apply Or.inl
      rw [following_of_isEnd hget hc]
      rcases terminator_cases hget hc with ⟨htwo, -, hlf⟩ | ⟨hone, hcr⟩
      · rw [htwo]
        apply Start.next hlf rfl
        rintro ⟨⟩
      · rw [hone]
        apply Start.next hget hc hcr

/-- A line that starts right after a character ends with this character. -/
theorem Start.of_succ (h : Start cs (n + 1)) :
  ∃ c, cs[n]? = some c ∧ isEnd c = true ∧ (c = '\r' → cs[n + 1]? ≠ some '\n')
  := by
  obtain - | ⟨hget, hc, hcr⟩ := h
  exact ⟨_, hget, hc, hcr⟩

theorem Start.le_length (h : Start cs b) :
  b ≤ cs.length
  := by
  cases b with
  | zero => apply Nat.zero_le
  | succ n =>
    obtain ⟨c, hget, -, -⟩ := h.of_succ
    obtain ⟨hlt, -⟩ := List.getElem?_eq_some_iff.mp hget
    apply hlt

theorem following_le_length (hle : n ≤ cs.length) :
  following cs n ≤ cs.length
  := by
  rcases start_following hle with hstart | hend
  · apply hstart.le_length
  · apply hend.le

/-- No line starts before the one that follows. -/
theorem Start.following_le (h : Start cs b) (hlt : n < b) :
  following cs n ≤ b
  := by
  obtain ⟨k, hk⟩ := Nat.exists_eq_add_of_lt hlt
  induction k generalizing n with
  | zero =>
    subst hk
    obtain ⟨c, hget, hc, hcr⟩ := h.of_succ
    rw [following_of_isEnd hget hc]
    rcases terminator_cases hget hc with ⟨-, hret, hlf⟩ | ⟨hone, -⟩
    · exact absurd hlf (hcr hret)
    · apply Nat.le_of_eq
      rw [hone]
  | succ k ih =>
    have hle := h.le_length
    have hget : cs[n]? = some cs[n] := List.getElem?_eq_getElem (by omega)
    cases hc : isEnd cs[n] with
    | false =>
      rw [← following_succ hget hc]
      apply ih <;> omega
    | true =>
      rw [following_of_isEnd hget hc]
      rcases terminator_cases hget hc with ⟨htwo, -, -⟩ | ⟨hone, -⟩
      all_goals omega

/-- Where the text goes on after the line that holds the offset `n`: where the first line after it
starts, or at the end of the text if this line is the last one. -/
inductive Resumes (cs : List Char) (n : Nat) : Nat → Prop
  | line {b : Nat} (hb : Start cs b) (hlt : n < b) (hfirst : ∀ b', Start cs b' → n < b' → b ≤ b') :
    Resumes cs n b
  | last (h : ∀ b, Start cs b → b ≤ n) : Resumes cs n cs.length

theorem resumes_following (hle : n ≤ cs.length) :
  Resumes cs n (following cs n)
  := by
  by_cases hlater : ∃ b, Start cs b ∧ n < b
  · obtain ⟨b, hb, hlt⟩ := hlater
    have hn := lt_following (Nat.lt_of_lt_of_le hlt hb.le_length)
    have hstart : Start cs (following cs n) := by
      rcases start_following hle with hstart | hend
      · apply hstart
      · have hb' : b = following cs n := by
          apply Nat.le_antisymm
          · rw [hend]
            apply hb.le_length
          · apply hb.following_le hlt
        rw [← hb']
        apply hb
    exact .line hstart hn fun b' hb' => hb'.following_le
  · have hlast : ∀ b, Start cs b → b ≤ n := by
      intro b hb
      apply Nat.le_of_not_lt
      intro hlt
      exact hlater ⟨b, hb, hlt⟩
    have hend : following cs n = cs.length := by
      rcases start_following hle with hstart | hend
      · rcases Nat.lt_or_ge n cs.length with hlt | hge
        · exact absurd (lt_following hlt) (Nat.not_lt_of_le (hlast _ hstart))
        · rw [following_of_length_le hge]
          apply Nat.le_antisymm hle hge
      · apply hend
    rw [hend]
    exact .last hlast

/-- The line that an offset is in starts at one place. -/
theorem Start.unique (h : Start cs b) (h' : Start cs b') (hj : Joined cs b a)
    (hj' : Joined cs b' a) :
  b = b'
  := by
  have hle : ∀ {d d' : Nat}, Start cs d → Joined cs d a → Joined cs d' a → d ≤ d' := by
    intro d d' hd hja hja'
    cases d with
    | zero => apply Nat.zero_le
    | succ n =>
      obtain ⟨c, hget, hc, -⟩ := hd.of_succ
      apply Nat.le_of_not_lt
      intro hlt
      have hend := hja'.isEnd_eq n c (Nat.le_of_lt_succ hlt) hja.le hget
      rw [hend] at hc
      contradiction
  apply Nat.le_antisymm
  · apply hle h hj hj'
  · apply hle h' hj' hj

/-! ### Counting terminators -/

/-- A line starts after a character that is the last one of a terminator. -/
theorem start_succ_iff {cs : List Char} {n : Nat} :
  Start cs (n + 1) ↔
    cs[n]? = some '\n' ∨ (cs[n]? = some '\r' ∧ cs[n + 1]? ≠ some '\n')
  := by
  constructor
  · intro h
    obtain ⟨c, hget, hc, hcr⟩ := h.of_succ
    simp only [isEnd, Bool.or_eq_true, decide_eq_true_eq] at hc
    rcases hc with rfl | rfl
    · exact .inr ⟨hget, hcr rfl⟩
    · exact .inl hget
  · rintro (hget | ⟨hget, hlf⟩)
    · apply Start.next hget rfl
      rintro ⟨⟩
    · apply Start.next hget rfl
      intro _
      apply hlf

instance (cs : List Char) : DecidablePred (Start cs)
  | 0 => isTrue .first
  | _ + 1 => decidable_of_iff _ start_succ_iff.symm

/-- The number of terminators that are complete before the offset `n`.  Where a terminator ends a
line starts, and there only. -/
def terminators (cs : List Char) (n : Nat) : Nat :=
  Nat.count (fun i => Start cs (i + 1)) n

theorem breaks_eq_terminators (cs : List Char) (n : Nat) :
  breaks n cs = terminators cs n
  := by
  induction n with
  | zero => cases cs <;> rfl
  | succ n ih =>
    rw [breaks_succ, ih, terminators, terminators, Nat.count_succ]
    simp only [start_succ_iff]

/-- There is no terminator between joined offsets. -/
theorem Joined.terminators_eq (h : Joined cs n n') :
  terminators cs n' = terminators cs n
  := by
  rw [← breaks_eq_terminators, ← breaks_eq_terminators, h.breaks_eq]

/-- The further the offset, the more terminators are before it. -/
theorem terminators_mono (cs : List Char) :
  Monotone (terminators cs)
  := Nat.count_monotone _

/-- A terminator counts once, whether it has one character or two. -/
theorem terminators_of_isEnd {c : Char} (hget : cs[n]? = some c) (hc : isEnd c = true) :
  terminators cs (n + terminator (cs.drop n)) = terminators cs n + 1
  := by
  have hsucc : ∀ i, terminators cs (i + 1) = terminators cs i + if Start cs (i + 1) then 1 else 0 :=
    Nat.count_succ _
  rcases terminator_cases hget hc with ⟨htwo, rfl, hlf⟩ | ⟨hone, hcr⟩
  · have hinside : ¬ Start cs (n + 1) := by
      rw [start_succ_iff, hget, hlf]
      decide
    have hstart : Start cs (n + 1 + 1) := start_succ_iff.mpr (.inl hlf)
    rw [htwo, hsucc, if_pos hstart, hsucc, if_neg hinside, Nat.add_zero]
  · rw [hone, hsucc, if_pos (.next hget hc hcr)]

/-! ### The line that follows, by the terminator -/

/-- The characters from an offset up to the first one that belongs to a terminator do not matter to
the line that follows. -/
theorem following_of_joined {c : Char} (h : Joined cs n n') (hget : cs[n']? = some c)
    (hc : isEnd c = true) :
  following cs n = n' + terminator (cs.drop n')
  := by
  have hlt := (List.getElem?_eq_some_iff.mp hget).1
  rw [← h.following_eq hlt.le, following_of_isEnd hget hc]

/-- Without a terminator, the text ends where the next line would follow. -/
theorem Joined.following_eq_length (h : Joined cs n cs.length) :
  following cs n = cs.length
  := by
  rw [← h.following_eq (Nat.le_refl _), following_of_length_le (Nat.le_refl _)]

/-- From every offset on there is a first character that belongs to a terminator, or none. -/
theorem exists_isEnd_or_joined (hle : n ≤ cs.length) :
  (∃ k c, Joined cs n k ∧ cs[k]? = some c ∧ isEnd c = true) ∨ Joined cs n cs.length
  := by
  obtain ⟨m, hm⟩ := Nat.exists_eq_add_of_le hle
  induction m generalizing n with
  | zero =>
    apply Or.inr
    rw [hm]
    apply Joined.refl
  | succ m ih =>
    have hget : cs[n]? = some cs[n] := List.getElem?_eq_getElem (by omega)
    cases hc : isEnd cs[n] with
    | true => exact .inl ⟨n, cs[n], .refl cs n, hget, hc⟩
    | false =>
      have hone : Joined cs n (n + 1) := by
        apply joined_add
        rw [List.drop_eq_getElem_cons (by omega), List.take_succ_cons, List.take_zero,
          List.forall_mem_singleton]
        apply hc
      rcases ih (n := n + 1) (by omega) (by omega) with ⟨k, c, hjoined, hend⟩ | hjoined
      · exact .inl ⟨k, c, hone.trans hjoined, hend⟩
      · exact .inr (hone.trans hjoined)

end LineBasic.Line
