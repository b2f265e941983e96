import LineBasic.Cursor
import LineBasic.Proofs.Program
import LineBasic.Proofs.Token.Extent
import LineBasic.Text.Space

/-!
# Advancing a cursor

Reading a token moves the cursor past blanks and then past the token.  The cursor stays in
its source and never moves back, and it moves on by a character at least unless the end of
the program is read.  Giving a token back leaves the cursor in front of the token, where the
same token is read again.
-/

namespace LineBasic.Cursor

/-! ### Blanks -/

private theorem drop_length_takeWhile {α : Type} (p : α → Bool) (l : List α) :
  l.drop (l.takeWhile p).length = l.dropWhile p
  := by
  calc l.drop (l.takeWhile p).length
      = (l.takeWhile p ++ l.dropWhile p).drop (l.takeWhile p).length := by
        rw [List.takeWhile_append_dropWhile]
    _ = l.dropWhile p := List.drop_left

theorem rest_skipBlanks (c : Cursor) :
  c.skipBlanks.rest = c.rest.dropWhile isBlank
  := by
  rw [← drop_length_takeWhile, rest_eq, rest_eq, List.drop_drop]
  simp [skipBlanks, jump]

/-- What is left after blanks have been skipped does not start with one. -/
theorem isBlank_of_mem_head? {c : Cursor} {a : Char} (ha : a ∈ c.skipBlanks.rest.head?) :
  isBlank a = false
  := by
  rw [rest_skipBlanks] at ha
  apply not_of_mem_head?_dropWhile _ ha

private theorem takeWhile_dropWhile {α : Type} (p : α → Bool) (l : List α) :
  (l.dropWhile p).takeWhile p = []
  := by
  induction l with
  | nil => rfl
  | cons a l ih =>
    by_cases h : p a = true
    · simpa [h] using ih
    · simp [h]

/-- After blanks have been skipped there are none to be skipped. -/
theorem skipBlanks_skipBlanks (c : Cursor) :
  c.skipBlanks.skipBlanks = c.skipBlanks
  := by
  rw [skipBlanks, rest_skipBlanks, takeWhile_dropWhile]
  rfl

/-! ### Reading one token -/

/-- A token is read when it stands after the blanks, and is then the one that can be given
back. -/
theorem next_eq_ok_iff {c c' : Cursor} {t : Token} :
  next c = .ok t c' ↔ ∃ n, Token.scan? c.skipBlanks.rest = some (t, n) ∧ c' = c.skipBlanks.pass n
  := by
  unfold next
  split
  · next u n h =>
    rw [h]
    constructor
    · intro heq
      cases heq
      use n
    · rintro ⟨_, heq, rfl⟩
      cases heq
      rfl
  · next h =>
    rw [h]
    constructor
    · intro heq
      cases heq
    · rintro ⟨_, heq, _⟩
      cases heq

/-- Only a quoted text that is not closed cannot be read; the cursor is left in front of it. -/
theorem next_eq_error_iff {c c' : Cursor} {f : Fault} :
  next c = .error f c'
    ↔ Token.scan? c.skipBlanks.rest = none ∧ f = Fault.of .missingClosingQuote
      ∧ c' = c.skipBlanks
  := by
  unfold next
  split
  · next u n h =>
    rw [h]
    constructor
    · intro heq
      cases heq
    · rintro ⟨heq, _⟩
      cases heq
  · next h =>
    rw [h]
    constructor
    · intro heq
      cases heq
      exact ⟨rfl, rfl, rfl⟩
    · rintro ⟨_, rfl, rfl⟩
      rfl

theorem rest_pass (c : Cursor) (n : Nat) :
  (c.pass n).rest = c.rest.drop n
  := by
  rw [rest_eq, rest_eq, List.drop_drop]
  rfl

/-- Giving back the token just read leaves the cursor in front of it. -/
theorem pushBack_of_next {c c' : Cursor} {t : Token} (h : next c = .ok t c') :
  c'.pushBack = c.skipBlanks
  := by
  obtain ⟨n, -, rfl⟩ := next_eq_ok_iff.mp h
  simp [pushBack, start, pass, jump, skipBlanks]

/-- Blanks in front of a token make no difference to it. -/
theorem next_skipBlanks (c : Cursor) :
  next c.skipBlanks = next c
  := by
  unfold next
  rw [skipBlanks_skipBlanks]

/-- A token that has been given back is read again. -/
theorem next_pushBack {c c' : Cursor} {t : Token} (h : next c = .ok t c') :
  next c'.pushBack = .ok t c'
  := by
  rw [pushBack_of_next h, next_skipBlanks, h]

/-- The cursor stays where it is if there is no token to be given back. -/
theorem pushBack_eq_self_iff {c : Cursor} :
  c.pushBack = c ↔ c.last = 0
  := by
  constructor
  · intro h
    rw [← h]
    rfl
  · intro h
    rw [pushBack, start, jump, h, Nat.sub_zero, ← h]

theorem last_eq_zero_of_error {c c' : Cursor} {f : Fault} (h : next c = .error f c') :
  c'.last = 0
  := by
  obtain ⟨-, -, rfl⟩ := next_eq_error_iff.mp h
  rfl

/-- Where no token can be read, the same fault is met again. -/
theorem next_pushBack_of_error {c c' : Cursor} {f : Fault} (h : next c = .error f c') :
  next c'.pushBack = .error f c'
  := by
  rw [pushBack_eq_self_iff.mpr (last_eq_zero_of_error h)]
  obtain ⟨-, -, rfl⟩ := next_eq_error_iff.mp h
  rw [next_skipBlanks, h]

theorem start_le_pos (c : Cursor) :
  c.start ≤ c.pos
  := Nat.sub_le _ _

/-- The token that has been read is no longer than the text before the cursor. -/
theorem last_le_of_next {c c' : Cursor} {t : Token} (h : next c = .ok t c') :
  c'.last ≤ c'.pos
  := by
  obtain ⟨n, -, rfl⟩ := next_eq_ok_iff.mp h
  apply Nat.le_add_left

/-! ### Moving on -/

/-- The second cursor is in the same source, and not before the first. -/
structure Ahead (c c' : Cursor) : Prop where
  source_eq : c'.source = c.source
  pos_le : c.pos ≤ c'.pos

instance : Std.Refl Ahead where
  refl _ := ⟨rfl, Nat.le_refl _⟩

instance : IsTrans Cursor Ahead where
  trans _ _ _ h h' := ⟨h'.source_eq.trans h.source_eq, Nat.le_trans h.pos_le h'.pos_le⟩

theorem Ahead.remaining_le {c c' : Cursor} (h : Ahead c c') :
  c'.remaining ≤ c.remaining
  := by
  have hpos := h.pos_le
  rw [remaining_eq, remaining_eq, h.source_eq]
  omega

theorem ahead_skipBlanks (c : Cursor) :
  Ahead c c.skipBlanks
  := ⟨rfl, Nat.le_add_right _ _⟩

theorem ahead_skipLine (c : Cursor) :
  Ahead c c.skipLine
  := ⟨rfl, Nat.le_add_right _ _⟩

/-- Reading a token never moves the cursor back. -/
theorem keeps_ahead_next :
  Program.Keeps Ahead next
  := by
  intro c
  have h := ahead_skipBlanks c
  cases hn : next c with
  | ok t c' =>
    obtain ⟨n, -, rfl⟩ := next_eq_ok_iff.mp hn
    exact ⟨h.source_eq, Nat.le_trans h.pos_le (Nat.le_add_right _ _)⟩
  | error f c' =>
    obtain ⟨-, -, rfl⟩ := next_eq_error_iff.mp hn
    apply h

/-- Reading a token other than the end of the program takes up a character. -/
theorem remaining_lt_of_next {c c' : Cursor} {t : Token} (h : next c = .ok t c')
    (ht : t ≠ .endOfProgram) :
  c'.remaining < c.remaining
  := by
  obtain ⟨n, hn, rfl⟩ := next_eq_ok_iff.mp h
  have hscan := Token.scanned_of_scan? hn
  have hpos := hscan.length_pos ht
  have hle := hscan.length_le
  rw [rest_eq, List.length_drop] at hle
  have hskip := (ahead_skipBlanks c).remaining_le
  rw [remaining_eq, remaining_eq] at hskip ⊢
  simp only [pass, skipBlanks, jump] at hle hskip ⊢
  omega

/-- A name that is read is one of a variable. -/
theorem isSome_slot_of_next {c c' : Cursor} {s : String} (h : next c = .ok (.name s) c') :
  (Slot.ofName? s).isSome
  := by
  obtain ⟨n, hn, -⟩ := next_eq_ok_iff.mp h
  obtain ⟨a, r, hs, ha⟩ := (Token.scanned_of_scan? hn).isAlpha_of_name
  simp [Slot.ofName?, hs, ha]

/-! ### Reading several tokens -/

/-- Reading the tokens `ts` one after the other moves the first cursor to the second. -/
inductive Reads : Cursor → List Token → Cursor → Prop
  | nil (c : Cursor) : Reads c [] c
  | cons {c c₁ c₂ : Cursor} {t : Token} {ts : List Token} :
    next c = .ok t c₁ → Reads c₁ ts c₂ → Reads c (t :: ts) c₂

theorem reads_cons_iff {c c₂ : Cursor} {t : Token} {ts : List Token} :
  Reads c (t :: ts) c₂ ↔ ∃ c₁, next c = .ok t c₁ ∧ Reads c₁ ts c₂
  := by
  constructor
  · intro h
    cases h with
    | @cons _ c₁ _ _ _ ht hts => exact ⟨c₁, ht, hts⟩
  · rintro ⟨c₁, ht, hts⟩
    apply Reads.cons ht hts

@[simp]
theorem reads_nil_iff {c c₂ : Cursor} :
  Reads c [] c₂ ↔ c = c₂
  := by
  constructor
  · intro h
    cases h
    rfl
  · rintro rfl
    apply Reads.nil

/-- Tokens are read in two parts. -/
theorem reads_append_iff {c c₂ : Cursor} {ts us : List Token} :
  Reads c (ts ++ us) c₂ ↔ ∃ c₁, Reads c ts c₁ ∧ Reads c₁ us c₂
  := by
  induction ts generalizing c with
  | nil => simp
  | cons t ts ih =>
    simp only [List.cons_append, reads_cons_iff, ih]
    constructor
    · rintro ⟨c₀, h₀, c₁, h₁, h₂⟩
      exact ⟨c₁, ⟨c₀, h₀, h₁⟩, h₂⟩
    · rintro ⟨c₁, ⟨c₀, h₀, h₁⟩, h₂⟩
      exact ⟨c₀, h₀, c₁, h₁, h₂⟩

@[simp]
theorem reads_singleton_iff {c c₂ : Cursor} {t : Token} :
  Reads c [t] c₂ ↔ next c = .ok t c₂
  := by
  simp [reads_cons_iff]

/-- Tokens are read again from the first one on after it has been given back. -/
theorem reads_pushBack_iff {c c₁ c₂ : Cursor} {t : Token} {ts : List Token}
    (h : next c = .ok t c₁) (hts : ts ≠ []) :
  Reads c₁.pushBack ts c₂ ↔ Reads c ts c₂
  := by
  obtain ⟨u, us, rfl⟩ := List.exists_cons_of_ne_nil hts
  rw [reads_cons_iff, reads_cons_iff, next_pushBack h, h]

theorem Reads.ahead {c c' : Cursor} {ts : List Token} (h : Reads c ts c') :
  Ahead c c'
  := by
  induction h with
  | nil c => apply Std.Refl.refl
  | cons ht _ ih => apply IsTrans.trans _ _ _ (keeps_ahead_next.of_ok ht) ih

/-- As many characters are taken up as tokens are read before the end of the program. -/
theorem Reads.length_le {c c' : Cursor} {ts : List Token} (h : Reads c ts c')
    (hts : .endOfProgram ∉ ts) :
  ts.length + c'.remaining ≤ c.remaining
  := by
  induction h with
  | nil c => simp
  | cons ht _ ih =>
    rw [List.mem_cons, not_or] at hts
    have hlt := remaining_lt_of_next ht (Ne.symm hts.1)
    have hle := ih hts.2
    rw [List.length_cons]
    omega

/-- Of the tokens that are read, every name is one of a variable. -/
theorem Reads.isSome_slot {c c' : Cursor} {ts : List Token} (h : Reads c ts c') {s : String}
    (hs : .name s ∈ ts) :
  (Slot.ofName? s).isSome
  := by
  induction h with
  | nil c => contradiction
  | cons ht _ ih =>
    rcases List.mem_cons.mp hs with rfl | hs
    · apply isSome_slot_of_next ht
    · apply ih hs

end LineBasic.Cursor
