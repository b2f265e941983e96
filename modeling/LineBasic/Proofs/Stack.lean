import LineBasic.Stack

/-!
# Pushing and popping

Pushing adds a frame at the top of a stack and popping removes it, and both leave the frames
below as they are.  A stack that is only shifted by them keeps the frames at the bottom as long as
it does not have fewer.
-/

namespace LineBasic.Stack

variable {role : Role} {α : Type} {s t t' : Stack role α} {a : α} {f : Fault}

theorem push_of_lt_limit (h : s.size < limit) (a : α) :
  s.push a = .ok ⟨a :: s.frames, s.size + 1, congrArg Nat.succ s.size_eq⟩
  := if_neg (Nat.not_le_of_lt h)

theorem push_of_limit_le (h : limit ≤ s.size) (a : α) :
  s.push a = .error (Fault.of .outOfMemory role.overflow)
  := if_pos h

/-- Pushing succeeds on stacks that are not full. -/
theorem push_eq_ok_iff :
  s.push a = .ok t ↔ s.size < limit ∧ t.frames = a :: s.frames
  := by
  rcases Nat.lt_or_ge s.size limit with hlt | hfull
  · rw [push_of_lt_limit hlt]
    constructor
    · intro h
      cases h
      exact ⟨hlt, rfl⟩
    · rintro ⟨-, hframes⟩
      congr 1
      apply ext
      apply hframes.symm
  · rw [push_of_limit_le hfull]
    constructor
    · intro h
      cases h
    · rintro ⟨hlt, -⟩
      omega

/-- Pushing fails on full stacks. -/
theorem push_eq_error_iff :
  s.push a = .error f ↔ limit ≤ s.size ∧ f = Fault.of .outOfMemory role.overflow
  := by
  rcases Nat.lt_or_ge s.size limit with hlt | hfull
  · rw [push_of_lt_limit hlt]
    constructor
    · intro h
      cases h
    · rintro ⟨hfull, -⟩
      omega
  · rw [push_of_limit_le hfull]
    constructor
    · intro h
      cases h
      exact ⟨hfull, rfl⟩
    · rintro ⟨-, rfl⟩
      rfl

theorem exists_push (h : s.size < limit) (a : α) :
  ∃ t, s.push a = .ok t
  := ⟨_, push_of_lt_limit h a⟩

/-- Popping succeeds on stacks that are not empty. -/
theorem pop_eq_ok_iff :
  s.pop = .ok (a, t) ↔ s.frames = a :: t.frames
  := by
  obtain ⟨frames, n, hn⟩ := s
  cases frames with
  | nil =>
    constructor
    · intro h
      cases h
    · intro h
      cases h
  | cons b frames =>
    constructor
    · intro h
      cases h
      rfl
    · intro h
      cases h
      apply congrArg fun below => Except.ok (a, below)
      apply ext
      rfl

/-- Popping fails on stacks that are empty. -/
theorem pop_eq_error_iff :
  s.pop = .error f ↔ s.frames = [] ∧ f = Fault.of role.underflow
  := by
  obtain ⟨frames, n, hn⟩ := s
  cases frames with
  | nil =>
    constructor
    · intro h
      cases h
      exact ⟨rfl, rfl⟩
    · rintro ⟨-, rfl⟩
      rfl
  | cons b frames =>
    constructor
    · intro h
      cases h
    · rintro ⟨h, -⟩
      cases h

theorem pop_of_size_eq_zero (h : s.size = 0) :
  s.pop = .error (Fault.of role.underflow)
  := by
  rw [s.size_eq] at h
  apply pop_eq_error_iff.mpr ⟨List.eq_nil_of_length_eq_zero h, rfl⟩

theorem size_of_pop_error (h : s.pop = .error f) :
  s.size = 0
  := by
  rw [s.size_eq, (pop_eq_error_iff.mp h).1]
  rfl

theorem size_of_push (h : s.push a = .ok t) :
  t.size = s.size + 1
  := by
  rw [t.size_eq, (push_eq_ok_iff.mp h).2, List.length_cons, s.size_eq]

/-- A frame that is pushed again after it has been popped restores the stack. -/
theorem eq_of_pop_of_push (hpop : s.pop = .ok (a, t)) (hpush : t.push a = .ok t') :
  t' = s
  := by
  apply ext
  rw [(push_eq_ok_iff.mp hpush).2, pop_eq_ok_iff.mp hpop]

/-- What has been pushed is popped next. -/
theorem pop_of_push (h : s.push a = .ok t) :
  t.pop = .ok (a, s)
  := pop_eq_ok_iff.mpr (push_eq_ok_iff.mp h).2

/-! ### Properties of all frames -/

variable {P : α → Prop}

/-- Where all frames have a property, they still have it after a push of one that has it. -/
theorem forall_of_push (hs : ∀ b ∈ s.frames, P b) (ha : P a) (h : s.push a = .ok t) :
  ∀ b ∈ t.frames, P b
  := by
  rw [(push_eq_ok_iff.mp h).2, List.forall_mem_cons]
  exact ⟨ha, hs⟩

/-- Where all frames have a property, the one that is popped has it and the others still do. -/
theorem forall_of_pop (hs : ∀ b ∈ s.frames, P b) (h : s.pop = .ok (a, t)) :
  P a ∧ ∀ b ∈ t.frames, P b
  := by
  rw [pop_eq_ok_iff.mp h, List.forall_mem_cons] at hs
  apply hs

/-! ### The frames below -/

/-- A stack is as it was, or has one frame more or one less at the top, or has been cleared. -/
inductive Shift (s t : Stack role α) : Prop
  | same (h : t = s)
  | pushed {a : α} (h : s.push a = .ok t)
  | popped {a : α} (h : s.pop = .ok (a, t))
  | cleared (h : t = empty)

/-- The frames at the bottom stay as long as there are as many frames as these. -/
theorem Shift.suffix {base : List α} (h : Shift s t) (hbase : base <:+ s.frames)
    (hlen : base.length ≤ t.size) :
  base <:+ t.frames
  := by
  cases h with
  | same h =>
    subst h
    apply hbase
  | pushed h =>
    rw [(push_eq_ok_iff.mp h).2]
    apply hbase.trans (List.suffix_cons _ _)
  | popped h =>
    rw [pop_eq_ok_iff.mp h] at hbase
    rcases List.suffix_cons_iff.mp hbase with hall | hbelow
    · rw [hall, List.length_cons, t.size_eq] at hlen
      omega
    · apply hbelow
  | cleared h =>
    subst h
    rw [List.eq_nil_of_length_eq_zero (Nat.le_zero.mp hlen)]
    apply List.nil_suffix

/-- No more frames are pushed than a stack can hold. -/
theorem Shift.size_le_limit (h : Shift s t) (hs : s.size ≤ limit) :
  t.size ≤ limit
  := by
  cases h with
  | same h =>
    rw [h]
    apply hs
  | pushed h =>
    have hlt := (push_eq_ok_iff.mp h).1
    rw [size_of_push h]
    apply hlt
  | popped h =>
    have hlen := congrArg List.length (pop_eq_ok_iff.mp h)
    rw [s.size_eq, hlen, List.length_cons] at hs
    rw [t.size_eq]
    apply Nat.le_of_succ_le hs
  | cleared h =>
    rw [h]
    apply Nat.zero_le

/-- There is room for a frame that has been popped. -/
theorem lt_limit_of_pop (hs : s.size ≤ limit) (h : s.pop = .ok (a, t)) :
  t.size < limit
  := by
  have hlen := congrArg List.length (pop_eq_ok_iff.mp h)
  rw [s.size_eq, hlen, List.length_cons] at hs
  rw [t.size_eq]
  apply hs

/-- A frame that has been popped can be pushed again. -/
theorem push_ne_error_of_pop (hs : s.size ≤ limit) (h : s.pop = .ok (a, t)) :
  t.push a ≠ .error f
  := by
  intro hpush
  have hroom := lt_limit_of_pop hs h
  have hfull := (push_eq_error_iff.mp hpush).1
  omega

/-- A stack above another one is equal to it if it has no more frames. -/
theorem eq_of_suffix (h : s.frames <:+ t.frames) (hsize : t.size = s.size) :
  t = s
  := by
  apply ext
  rw [t.size_eq, s.size_eq] at hsize
  apply (h.eq_of_length hsize.symm).symm

end LineBasic.Stack
