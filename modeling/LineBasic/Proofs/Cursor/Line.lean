import LineBasic.Proofs.Cursor.Advance
import LineBasic.Proofs.Line.Start

/-!
# Tokens and lines

Reading a token stays in the line, unless the token is the end of the line, and then leads to
the line that follows, as skipping the rest of the line does.
-/

namespace LineBasic

/-- The cursor at an offset, after no token. -/
def Source.cursor (s : Source) (n : Nat) : Cursor :=
  { source := s, pos := n }

namespace Cursor

open Line (Joined following)

/-- What is read does not depend on the token that has been passed. -/
theorem next_cursor {s : Source} {c : Cursor} (h : c.source = s) :
  next (s.cursor c.pos) = next c
  := by
  subst h
  rfl

theorem lineOf_eq (c : Cursor) (n : Nat) :
  c.lineOf n = Line.terminators c.source.chars n + 1
  := by
  rw [lineOf, Line.breaks_eq_terminators]

/-! ### Staying in the source -/

/-- A cursor within its source. -/
def Within (c : Cursor) : Prop :=
  c.pos ≤ c.source.chars.length

theorem Within.skipBlanks {c : Cursor} (h : Within c) :
  Within c.skipBlanks
  := by
  have hle := (List.takeWhile_prefix (l := c.rest) isBlank).length_le
  rw [rest_eq, List.length_drop] at hle
  simp only [Within, Cursor.skipBlanks, jump, rest_eq] at h ⊢
  omega

theorem Within.next {c c' : Cursor} {t : Token} (hc : Within c) (h : next c = .ok t c') :
  Within c'
  := by
  have hblanks := hc.skipBlanks
  obtain ⟨n, hscan, rfl⟩ := next_eq_ok_iff.mp h
  have hle := (Token.scanned_of_scan? hscan).length_le
  rw [rest_eq, List.length_drop] at hle
  simp only [Within, pass] at hblanks ⊢
  omega

theorem Within.pushBack {c : Cursor} (h : Within c) :
  Within c.pushBack
  := Nat.le_trans c.start_le_pos h

/-! ### Staying in the line -/

/-- A token that has been read starts after the blanks. -/
theorem start_of_next {c c' : Cursor} {t : Token} (h : next c = .ok t c') :
  c'.start = c.skipBlanks.pos
  := by
  obtain ⟨n, -, rfl⟩ := next_eq_ok_iff.mp h
  apply Nat.add_sub_cancel

/-- The end of the program takes up no character. -/
theorem pos_of_endOfProgram {c c' : Cursor} (h : next c = .ok .endOfProgram c') :
  c'.pos = c'.start
  := by
  obtain ⟨n, hscan, rfl⟩ := next_eq_ok_iff.mp h
  rw [(Token.scanned_of_scan? hscan).length_eq_zero]
  rfl

/-- Blanks are skipped within a line. -/
theorem joined_skipBlanks (c : Cursor) :
  Joined c.source.chars c.pos c.skipBlanks.pos
  := by
  apply Line.joined_add
  intro x hx
  rw [← rest_eq, ← List.prefix_iff_eq_take.mp (List.takeWhile_prefix _)] at hx
  apply Line.isEnd_of_isBlank
  apply List.mem_takeWhile_imp hx

/-- A token is in the line in which it is read. -/
theorem joined_of_next {c c' : Cursor} {t : Token} (h : next c = .ok t c')
    (ht : t ≠ .endOfLine) :
  Joined c.source.chars c.pos c'.pos
  := by
  obtain ⟨n, hscan, rfl⟩ := next_eq_ok_iff.mp h
  apply (joined_skipBlanks c).trans
  apply Line.joined_add
  intro x hx
  rw [rest_eq] at hscan
  apply (Token.scanned_of_scan? hscan).isEnd_of_mem_take ht hx

/-- A token is in the line in which it starts. -/
theorem joined_start_of_next {c c' : Cursor} {t : Token} (h : next c = .ok t c')
    (ht : t ≠ .endOfLine) :
  Joined c.source.chars c'.start c'.pos
  := by
  rw [start_of_next h]
  rw [← next_skipBlanks] at h
  exact joined_of_next h ht

/-- Tokens are in one line if none of them ends a line. -/
theorem Reads.joined {c c' : Cursor} {ts : List Token} (h : Reads c ts c')
    (hts : .endOfLine ∉ ts) :
  Joined c.source.chars c.pos c'.pos
  := by
  induction h with
  | nil c => apply Line.Joined.refl
  | cons ht _ ih =>
    rw [List.mem_cons, not_or] at hts
    have hrest := ih hts.2
    rw [(keeps_ahead_next.of_ok ht).source_eq] at hrest
    apply (joined_of_next ht (Ne.symm hts.1)).trans hrest

theorem Reads.within {c c' : Cursor} {ts : List Token} (h : Reads c ts c') (hc : Within c) :
  Within c'
  := by
  induction h with
  | nil c => apply hc
  | cons ht _ ih => apply ih (hc.next ht)

/-! ### Going to the next line -/

/-- Skipping the rest of a line leads to the line that follows. -/
theorem pos_skipLine (c : Cursor) :
  c.skipLine.pos = following c.source.chars c.pos
  := by
  rw [skipLine, rest_eq]
  rfl

theorem Within.skipLine {c : Cursor} (h : Within c) :
  Within c.skipLine
  := by
  rw [Within, pos_skipLine]
  apply Line.following_le_length h

theorem skipLine_eq {s : Source} {c : Cursor} (h : c.source = s) :
  c.skipLine = s.cursor (following s.chars c.pos)
  := by
  subst h
  rw [skipLine, rest_eq]
  rfl

/-- The end of a line is a terminator, after which the next line follows. -/
theorem isEnd_of_endOfLine {c c' : Cursor} (h : next c = .ok .endOfLine c') :
  ∃ x, c.source.chars[c'.start]? = some x ∧ Line.isEnd x = true ∧
    c'.pos = following c.source.chars c'.start
  := by
  have hstart := start_of_next h
  obtain ⟨n, hscan, rfl⟩ := next_eq_ok_iff.mp h
  obtain ⟨x, r, hrest, hx, hn⟩ := (Token.scanned_of_scan? hscan).isEnd_of_endOfLine
  rw [rest_eq] at hrest
  have hget : c.source.chars[c.skipBlanks.pos]? = some x := by
    rw [← List.head?_drop]
    exact congrArg List.head? hrest
  use x
  rw [hstart]
  refine ⟨hget, hx, ?_⟩
  rw [Line.following_of_isEnd hget hx, hn, ← hrest]
  rfl

/-- Reading the end of a line leads to the line that follows. -/
theorem pos_of_endOfLine {c c' : Cursor} (h : next c = .ok .endOfLine c') (hc : Within c) :
  c'.pos = following c.source.chars c.pos
  := by
  obtain ⟨x, -, -, hpos⟩ := isEnd_of_endOfLine h
  rw [hpos, start_of_next h]
  apply (joined_skipBlanks c).following_eq hc.skipBlanks

end Cursor

end LineBasic
