import LineBasic.Proofs.Cursor.Line
import LineBasic.Proofs.Reading

/-!
# The boundaries of tokens

A boundary is an offset to which a line is read, token by token, from where it starts; blanks in
front of the offset stand for nothing.  The end of the text is one, too, even where it cannot be
read to.  No boundary lies inside a token.  Whatever reading does to a cursor that is at a
boundary, it leaves the cursor at one, and the token that can be given back starts at one.
-/

namespace LineBasic

open Line (Start Joined following)

/-! ### Boundaries -/

namespace Source

open Cursor (Reads)

/-- The cursor is reached from the start `b` of a line by reading tokens of this line. -/
structure Reached (s : Source) (b : Nat) (ts : List Token) (c : Cursor) : Prop where
  start : Start s.chars b
  reads : Reads (s.cursor b) ts c
  isEnd_eq : ∀ t ∈ ts, t.isEnd = false

/-- An offset at which no token is divided: the end of the text, or one that is reached in its
line, up to blanks. -/
inductive Boundary (s : Source) : Nat → Prop
  | atEnd : Boundary s s.size
  | inLine {a b : Nat} {ts : List Token} {c : Cursor} (h : s.Reached b ts c) (hle : c.pos ≤ a)
    (hblanks : a ≤ c.skipBlanks.pos) : Boundary s a

/-- An offset that divides a token of a line, or a terminator of two characters. -/
inductive Inside (s : Source) : Nat → Prop
  | token {a b : Nat} {ts : List Token} {c c' : Cursor} {t : Token} (h : s.Reached b ts c)
    (hnext : Cursor.next c = .ok t c') (hlt : c'.start < a) (hlt' : a < c'.pos) : Inside s a
  | terminator {n : Nat} (hcr : s.chars[n]? = some '\r') (hlf : s.chars[n + 1]? = some '\n') :
    Inside s (n + 1)

variable {s : Source} {a b b' n : Nat} {ts us : List Token} {c c' d d' : Cursor} {t : Token}

theorem Reached.source_eq (h : s.Reached b ts c) :
  c.source = s
  := h.reads.ahead.source_eq

theorem Reached.within (h : s.Reached b ts c) :
  c.Within
  := by
  apply h.reads.within
  apply h.start.le_length

/-- All of the tokens are in the line that is read. -/
theorem Reached.joined (h : s.Reached b ts c) :
  Joined s.chars b c.pos
  := by
  apply h.reads.joined
  intro hmem
  have hend := h.isEnd_eq _ hmem
  contradiction

/-- A line is reached where it starts. -/
theorem reached_start (h : Start s.chars b) :
  s.Reached b [] (s.cursor b)
  where
  start := h
  reads := Reads.nil _
  isEnd_eq _ ht := absurd ht List.not_mem_nil

theorem Reached.next (h : s.Reached b ts c) (hnext : Cursor.next c = .ok t c')
    (ht : t.isEnd = false) :
  s.Reached b (ts ++ [t]) c'
  where
  start := h.start
  reads := by
    apply Cursor.reads_append_iff.mpr
    exact ⟨c, h.reads, Cursor.reads_singleton_iff.mpr hnext⟩
  isEnd_eq u hu := by
    rcases List.mem_append.mp hu with hu | hu
    · apply h.isEnd_eq u hu
    · rw [List.mem_singleton.mp hu]
      apply ht

/-- Cursors are at boundaries when they are reached. -/
theorem Reached.boundary (h : s.Reached b ts c) :
  s.Boundary c.pos
  := Boundary.inLine h (Nat.le_refl _) (Cursor.ahead_skipBlanks c).pos_le

/-- The next line starts at a boundary. -/
theorem boundary_following (h : n ≤ s.chars.length) :
  s.Boundary (following s.chars n)
  := by
  rcases Line.start_following h with hstart | hend
  · apply (reached_start hstart).boundary
  · rw [hend, ← s.size_eq]
    apply Boundary.atEnd

theorem Boundary.le_size (h : s.Boundary a) :
  a ≤ s.size
  := by
  obtain - | ⟨hreached, -, hblanks⟩ := h
  · apply Nat.le_refl
  · have hle := hreached.within.skipBlanks
    rw [Cursor.Within, (Cursor.ahead_skipBlanks _).source_eq, hreached.source_eq] at hle
    rw [s.size_eq]
    apply Nat.le_trans hblanks hle

/-! ### No boundary inside a token -/

/-- Of two readings from one place, one goes on where the other ends. -/
private theorem reads_comparable {c₀ : Cursor} (h : Reads c₀ ts c) (h' : Reads c₀ us d) :
  (∃ vs, Reads c vs d) ∨ ∃ vs, Reads d vs c
  := by
  induction h generalizing us with
  | nil c => exact .inl ⟨us, h'⟩
  | @cons c₀ c₁ c t ts ht hts ih =>
    cases h' with
    | nil => exact .inr ⟨t :: ts, .cons ht hts⟩
    | cons ht' hts' =>
      rw [ht] at ht'
      cases ht'
      apply ih hts'

/-- What is reached in a line does not divide the tokens that are read in this line. -/
private theorem not_inside_of_reached (h : s.Reached b ts c) (h' : s.Reached b us d)
    (hle : c.pos ≤ a) (hblanks : a ≤ c.skipBlanks.pos) (hnext : Cursor.next d = .ok t d')
    (hlt : d'.start < a) :
  d'.pos ≤ a
  := by
  have hstart := Cursor.start_of_next hnext
  rcases reads_comparable h.reads h'.reads with ⟨vs, hvs⟩ | ⟨vs, hvs⟩
  · cases hvs with
    | nil => omega
    | @cons _ c₁ _ _ _ hc hrest =>
      have hc₁ := Cursor.start_of_next hc
      have hpos := c₁.start_le_pos
      have hahead := hrest.ahead.pos_le
      have hskip := (Cursor.ahead_skipBlanks d).pos_le
      omega
  · cases hvs with
    | nil => omega
    | cons hd hrest =>
      rw [hnext] at hd
      cases hd
      apply Nat.le_trans hrest.ahead.pos_le hle

/-- What is reached in a line is in this line, and so are the blanks after it. -/
private theorem joined_of_reached (h : s.Reached b ts c) (hle : c.pos ≤ a)
    (hblanks : a ≤ c.skipBlanks.pos) :
  Joined s.chars b a
  := by
  apply h.joined.trans
  apply Line.Joined.left _ hle hblanks
  rw [← h.source_eq]
  apply Cursor.joined_skipBlanks

/-- A boundary that divides a token is in the line of this token. -/
private theorem start_eq_of_inside (h : s.Reached b ts c) (h' : s.Reached b' us d)
    (hle : c.pos ≤ a) (hblanks : a ≤ c.skipBlanks.pos) (hnext : Cursor.next d = .ok t d')
    (hlt : d'.start < a) (hlt' : a < d'.pos) :
  b = b'
  := by
  have hdsource := h'.source_eq
  have hja := joined_of_reached h hle hblanks
  by_cases ht : t = .endOfLine
  · subst ht
    obtain ⟨x, hget, hx, hpos⟩ := Cursor.isEnd_of_endOfLine hnext
    rw [hdsource] at hget hpos
    -- The line of the boundary would have to start after the terminator.
    have hb : d'.start < b := by
      apply Nat.lt_of_not_le
      intro hb
      have hend := hja.isEnd_eq d'.start x hb hlt hget
      rw [hend] at hx
      contradiction
    have hfollowing := h.start.following_le hb
    have hle := hja.le
    omega
  · apply h.start.unique h'.start hja
    apply h'.joined.trans
    have hd := Cursor.joined_of_next hnext ht
    rw [hdsource] at hd
    apply hd.left _ (Nat.le_of_lt hlt')
    have hstart := Cursor.start_of_next hnext
    have hskip := (Cursor.ahead_skipBlanks d).pos_le
    omega

/-- No boundary divides a token of a line. -/
private theorem Boundary.not_in_token (h : s.Boundary a) (h' : s.Reached b us d)
    (hnext : Cursor.next d = .ok t d') (hlt : d'.start < a) :
  d'.pos ≤ a
  := by
  obtain - | ⟨hc, hle, hblanks⟩ := h
  · have hwithin := h'.within.next hnext
    rw [Cursor.Within, (Cursor.keeps_ahead_next.of_ok hnext).source_eq, h'.source_eq,
      ← s.size_eq] at hwithin
    exact hwithin
  · apply Nat.le_of_not_lt
    intro hlt'
    obtain rfl := start_eq_of_inside hc h' hle hblanks hnext hlt hlt'
    have hle' := not_inside_of_reached hc h' hle hblanks hnext hlt
    omega

/-- No boundary divides a terminator. -/
private theorem Boundary.not_in_terminator (h : s.Boundary (n + 1))
    (hcr : s.chars[n]? = some '\r') :
  s.chars[n + 1]? ≠ some '\n'
  := by
  intro hlf
  generalize hk : n + 1 = k at h
  obtain - | ⟨hc, hle, hblanks⟩ := h
  · rw [hk, List.getElem?_eq_none s.size_eq.ge] at hlf
    contradiction
  · subst hk
    have hj := joined_of_reached hc hle hblanks
    rcases Nat.lt_or_eq_of_le hj.le with hlt | rfl
    · have hend := hj.isEnd_eq n _ (Nat.le_of_lt_succ hlt) (Nat.lt_succ_self n) hcr
      contradiction
    · obtain ⟨x, hget, -, hdivide⟩ := hc.start.of_succ
      rw [hcr] at hget
      cases hget
      apply hdivide rfl hlf

/-- No boundary lies inside a token. -/
theorem Boundary.not_inside (h : s.Boundary a) :
  ¬ s.Inside a
  := by
  intro hinside
  cases hinside with
  | token hd hnext hlt hlt' =>
    have hle := h.not_in_token hd hnext hlt
    omega
  | terminator hcr hlf => apply h.not_in_terminator hcr hlf

end Source

/-! ### Cursors at boundaries -/

namespace Cursor

variable {s : Source} {c c' : Cursor} {t : Token} {a n : Nat}

/-- A cursor of a source that is at a boundary and after a token that starts at one. -/
structure Settled (s : Source) (c : Cursor) : Prop where
  source_eq : c.source = s
  last_le : c.last ≤ c.pos
  pos : s.Boundary c.pos
  start : s.Boundary c.start

theorem settled_jump (hs : c.source = s) (ha : s.Boundary a) :
  Settled s (c.jump a)
  where
  source_eq := hs
  last_le := Nat.zero_le _
  pos := ha
  start := ha

theorem Settled.within (h : Settled s c) :
  c.Within
  := by
  have hle := h.pos.le_size
  rw [s.size_eq] at hle
  rw [Within, h.source_eq]
  apply hle

private theorem takeWhile_drop {α : Type} (p : α → Bool) (l : List α) (k : Nat)
    (h : k ≤ (l.takeWhile p).length) :
  (l.drop k).takeWhile p = (l.takeWhile p).drop k
  := by
  induction l generalizing k with
  | nil => simp
  | cons x l ih =>
    cases k with
    | zero => rfl
    | succ k =>
      cases hx : p x with
      | false =>
        rw [List.takeWhile_cons, hx] at h
        contradiction
      | true =>
        rw [List.takeWhile_cons, hx, if_pos rfl, List.length_cons] at h
        rw [List.takeWhile_cons, hx, if_pos rfl, List.drop_succ_cons, List.drop_succ_cons]
        apply ih k (Nat.le_of_succ_le_succ h)

/-- Among the blanks that are skipped it does not matter where one is. -/
theorem skipBlanks_eq (hs : c'.source = c.source) (hle : c.pos ≤ c'.pos)
    (hblanks : c'.pos ≤ c.skipBlanks.pos) :
  c'.skipBlanks = c.skipBlanks
  := by
  obtain ⟨k, hk⟩ := Nat.exists_eq_add_of_le hle
  have hlen : k ≤ (c.rest.takeWhile isBlank).length := by
    simp only [skipBlanks, jump] at hblanks
    omega
  have hrest : c'.rest = c.rest.drop k := by
    rw [rest_eq, rest_eq, hs, hk, List.drop_drop]
  rw [skipBlanks, skipBlanks, hrest, takeWhile_drop _ _ _ hlen, List.length_drop, jump, jump, hs]
  congr 1
  omega

/-- A boundary in a line is followed by the same token as the cursor that is reached there. -/
private theorem skipBlanks_of_reached {b : Nat} {ts : List Token} {d : Cursor}
    (h : s.Reached b ts d) (hs : c.source = s) (hle : d.pos ≤ c.pos)
    (hblanks : c.pos ≤ d.skipBlanks.pos) :
  c.skipBlanks = d.skipBlanks
  := skipBlanks_eq (hs.trans h.source_eq.symm) hle hblanks

/-- Blanks are skipped from boundary to boundary. -/
theorem Settled.skipBlanks (h : Settled s c) :
  Settled s c.skipBlanks
  := by
  apply settled_jump h.source_eq
  have hwithin := h.within.skipBlanks
  have hskip := (ahead_skipBlanks c).pos_le
  rw [Within, (ahead_skipBlanks c).source_eq, h.source_eq, ← s.size_eq] at hwithin
  change s.Boundary c.skipBlanks.pos
  generalize hp : c.pos = p at hskip
  obtain - | ⟨hd, hle, hblanks⟩ := hp ▸ h.pos
  · rw [Nat.le_antisymm hwithin hskip]
    apply Source.Boundary.atEnd
  · subst hp
    rw [skipBlanks_of_reached hd h.source_eq hle hblanks]
    apply Source.Boundary.inLine hd (ahead_skipBlanks _).pos_le (Nat.le_refl _)

/-- A token that is read from a boundary is reached in its line, unless it is the end of the line or
of the program. -/
theorem Settled.exists_reached (h : Settled s c) (hnext : Cursor.next c = .ok t c')
    (ht : t.isEnd = false) :
  ∃ b ts, s.Reached b (ts ++ [t]) c'
  := by
  generalize hp : c.pos = p
  obtain - | ⟨hd, hle, hblanks⟩ := hp ▸ h.pos
  · have hlt := remaining_lt_of_next hnext (by
      rintro rfl
      contradiction)
    rw [remaining_eq c, h.source_eq, hp, s.size_eq, Nat.sub_self] at hlt
    exact absurd hlt (Nat.not_lt_zero _)
  · subst hp
    rw [← next_skipBlanks, skipBlanks_of_reached hd h.source_eq hle hblanks,
      next_skipBlanks] at hnext
    exact ⟨_, _, hd.next hnext ht⟩

/-- Reading a token leaves the cursor at a boundary. -/
theorem Settled.next (h : Settled s c) (hnext : Cursor.next c = .ok t c') :
  Settled s c'
  := by
  have hstart : s.Boundary c'.start := by
    rw [start_of_next hnext]
    exact h.skipBlanks.pos
  constructor
  · apply (keeps_ahead_next.of_ok hnext).source_eq.trans h.source_eq
  · apply last_le_of_next hnext
  · cases t with
    | endOfLine =>
      rw [pos_of_endOfLine hnext h.within, h.source_eq]
      apply Source.boundary_following
      rw [← h.source_eq]
      apply h.within
    | endOfProgram =>
      rw [pos_of_endOfProgram hnext]
      apply hstart
    | delimiter | name | number | keyword | quoted =>
      obtain ⟨b, ts, hreached⟩ := h.exists_reached hnext rfl
      exact hreached.boundary
  · apply hstart

theorem Settled.pushBack (h : Settled s c) :
  Settled s c.pushBack
  := settled_jump h.source_eq h.start

theorem Settled.skipLine (h : Settled s c) :
  Settled s c.skipLine
  := by
  have hwithin := h.within
  rw [Within, h.source_eq] at hwithin
  apply settled_jump h.source_eq
  rw [rest_eq, h.source_eq]
  apply Source.boundary_following hwithin

/-! ### Reading from boundary to boundary -/

/-- The second cursor is settled if the first one is. -/
def StaysSettled (s : Source) (c c' : Cursor) : Prop :=
  Settled s c → Settled s c'

instance : Std.Refl (StaysSettled s) where
  refl _ h := h

instance : IsTrans Cursor (StaysSettled s) where
  trans _ _ _ h h' hc := h' (h hc)

/-- Reading leaves settled cursors settled. -/
theorem kept_staysSettled (s : Source) :
  Kept (StaysSettled s) where
  next c hc := by
    cases h : Cursor.next c with
    | ok t c' => exact hc.next h
    | error f c' =>
      obtain ⟨-, -, rfl⟩ := next_eq_error_iff.mp h
      exact hc.skipBlanks
  pushBack _ hc := hc.pushBack
  skipLine _ hc := hc.skipLine

end Cursor

end LineBasic
