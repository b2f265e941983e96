import LineBasic.Proofs.Cursor.Line
import LineBasic.Proofs.Token.Lexeme
import Mathlib.Logic.Function.Iterate

/-!
# Three notions of a line

The end of a line is a token, skipping the rest of a line reads no tokens, and the number of a line
is counted in the text before an offset.  The three agree on where lines end, also from an offset
between the two characters of a terminator.
-/

namespace LineBasic.Cursor

open Line (Joined terminators)

variable {c c' : Cursor} {s : Source} {f : Fault} {k n : Nat} {t : Token} {x : Char}

/-! ### Reading a token -/

/-- Reading the end of a line leads to the line with the next number. -/
theorem lineOf_of_endOfLine (h : next c = .ok .endOfLine c') :
  c.lineOf c'.pos = c.lineOf c.pos + 1
  := by
  obtain ⟨x, hget, hx, hpos⟩ := isEnd_of_endOfLine h
  rw [start_of_next h] at hget hpos
  rw [lineOf_eq, lineOf_eq, hpos, Line.following_of_isEnd hget hx,
    Line.terminators_of_isEnd hget hx, (joined_skipBlanks c).terminators_eq]

/-- Reading any other token stays in the line. -/
theorem lineOf_of_next (h : next c = .ok t c') (ht : t ≠ .endOfLine) :
  c.lineOf c'.pos = c.lineOf c.pos
  := by
  rw [lineOf_eq, lineOf_eq, (joined_of_next h ht).terminators_eq]

/-- Where no token can be read, the cursor stays in the line. -/
theorem lineOf_of_error (h : next c = .error f c') :
  c.lineOf c'.pos = c.lineOf c.pos
  := by
  obtain ⟨-, -, rfl⟩ := next_eq_error_iff.mp h
  rw [lineOf_eq, lineOf_eq, (joined_skipBlanks c).terminators_eq]

/-- At a character of a terminator the end of the line is read. -/
theorem exists_next_of_isEnd (hget : s.chars[n]? = some x) (hx : Line.isEnd x = true) :
  ∃ c', next (s.cursor n) = .ok .endOfLine c'
  := by
  obtain ⟨hlt, rfl⟩ := List.getElem?_eq_some_iff.mp hget
  have hblank : ¬ isBlank s.chars[n] = true := by
    intro hblank
    rw [Line.isEnd_of_isBlank hblank] at hx
    contradiction
  have hdrop : (s.cursor n).rest = s.chars[n] :: s.chars.drop (n + 1) := by
    rw [rest_eq, ← List.drop_eq_getElem_cons]
    rfl
  have hrest : (s.cursor n).skipBlanks.rest = s.chars[n] :: s.chars.drop (n + 1) := by
    rw [rest_skipBlanks, hdrop, List.dropWhile_cons_of_neg hblank]
  have hscan := Token.scan?_of_isEnd hx (s.chars.drop (n + 1))
  rw [← hrest] at hscan
  exact ⟨_, next_eq_ok_iff.mpr ⟨_, hscan, rfl⟩⟩

/-! ### Skipping the rest of a line -/

/-- Skipping the rest of a line leads to where the end of the line, read at the first character of
its terminator, would lead. -/
theorem pos_skipLine_of_next (h : Joined c.source.chars c.pos k)
    (hget : c.source.chars[k]? = some x) (hnext : next (c.source.cursor k) = .ok .endOfLine c') :
  c.skipLine.pos = c'.pos
  := by
  have hle := (List.getElem?_eq_some_iff.mp hget).1.le
  rw [pos_skipLine, ← h.following_eq hle]
  symm
  apply pos_of_endOfLine hnext hle

/-- Skipping the rest of a line leads to the line with the next number. -/
theorem lineOf_skipLine (h : Joined c.source.chars c.pos k) (hget : c.source.chars[k]? = some x)
    (hx : Line.isEnd x = true) :
  c.lineOf c.skipLine.pos = c.lineOf c.pos + 1
  := by
  rw [lineOf_eq, lineOf_eq, pos_skipLine, Line.following_of_joined h hget hx,
    Line.terminators_of_isEnd hget hx, h.terminators_eq]

/-- Skipping the rest of the last line leads to the end of the text. -/
theorem pos_skipLine_of_joined (h : Joined c.source.chars c.pos c.source.chars.length) :
  c.skipLine.pos = c.source.chars.length
  := by
  rw [pos_skipLine, h.following_eq_length]

/-- Before the last line, skipping the rest of a line leads to the line with the next number. -/
theorem lineOf_skipLine_of_lt (hc : Within c)
    (h : c.lineOf c.pos < c.lineOf c.source.chars.length) :
  c.lineOf c.skipLine.pos = c.lineOf c.pos + 1
  := by
  rcases Line.exists_isEnd_or_joined hc with ⟨k, x, hjoined, hget, hx⟩ | hjoined
  · apply lineOf_skipLine hjoined hget hx
  · rw [lineOf_eq, lineOf_eq, hjoined.terminators_eq] at h
    exact absurd h (Nat.lt_irrefl _)

/-- The cursor is in the source, and in its line number `k + 1`. -/
structure AtLine (s : Source) (k : Nat) (c : Cursor) : Prop where
  source_eq : c.source = s
  within : Within c
  lineOf_eq : c.lineOf c.pos = k + 1

/-- Skipping lines from the start of a source counts them. -/
theorem atLine_iterate (h : k ≤ terminators s.chars s.chars.length) :
  AtLine s k (skipLine^[k] (s.cursor 0))
  := by
  induction k with
  | zero =>
    constructor
    · rfl
    · apply Nat.zero_le
    · rw [lineOf_eq]
      rfl
  | succ k ih =>
    rw [Function.iterate_succ_apply']
    have hk := ih (Nat.le_of_succ_le h)
    generalize skipLine^[k] (s.cursor 0) = c at hk
    obtain ⟨rfl, hwithin, hline⟩ := hk
    have hlt : c.lineOf c.pos < c.lineOf c.source.chars.length := by
      rw [hline, lineOf_eq]
      apply Nat.succ_lt_succ h
    constructor
    · rfl
    · apply hwithin.skipLine
    · rw [← hline]
      apply lineOf_skipLine_of_lt hwithin hlt

/-- From every offset of every source, reading the end of a line leads to the line with the next
number, and reading any other token, or failing to read one, stays in the line.  Skipping the rest of
the line leads to where the end of the line, read at the next character of a terminator, leads, which
is in the line with the next number; or, if there is no such character, to the end of the text, in
the same line.  The number of a line does not decrease with the offset, and skipping a line `k` times
from the start of the source leads to the line number `k + 1`, as long as there are `k` terminators. -/
theorem lines_agree (hc : Within c) :
  (∀ c', next c = .ok .endOfLine c' → c.lineOf c'.pos = c.lineOf c.pos + 1) ∧
  (∀ t c', next c = .ok t c' → t ≠ .endOfLine → c.lineOf c'.pos = c.lineOf c.pos) ∧
  (∀ f c', next c = .error f c' → c.lineOf c'.pos = c.lineOf c.pos) ∧
  ((∃ k x c', Joined c.source.chars c.pos k ∧ c.source.chars[k]? = some x ∧ Line.isEnd x = true ∧
      next (c.source.cursor k) = .ok .endOfLine c' ∧ c.skipLine.pos = c'.pos ∧
      c.lineOf c.skipLine.pos = c.lineOf c.pos + 1) ∨
    (Joined c.source.chars c.pos c.source.chars.length ∧
      c.skipLine.pos = c.source.chars.length ∧ c.lineOf c.skipLine.pos = c.lineOf c.pos)) ∧
  Monotone c.lineOf ∧
  ∀ k ≤ terminators c.source.chars c.source.chars.length,
    AtLine c.source k (skipLine^[k] (c.source.cursor 0))
  := by
  and_intros
  · intro c'
    apply lineOf_of_endOfLine
  · intro t c'
    apply lineOf_of_next
  · intro f c'
    apply lineOf_of_error
  · rcases Line.exists_isEnd_or_joined hc with ⟨k, x, hjoined, hget, hx⟩ | hjoined
    · obtain ⟨c', hnext⟩ := exists_next_of_isEnd hget hx
      have hpos := pos_skipLine_of_next hjoined hget hnext
      have hline := lineOf_skipLine hjoined hget hx
      exact .inl ⟨k, x, c', hjoined, hget, hx, hnext, hpos, hline⟩
    · have hpos := pos_skipLine_of_joined hjoined
      have hline : c.lineOf c.skipLine.pos = c.lineOf c.pos := by
        rw [hpos, lineOf_eq, lineOf_eq, hjoined.terminators_eq]
      exact .inr ⟨hjoined, hpos, hline⟩
  · intro n n' hle
    rw [lineOf_eq, lineOf_eq]
    apply Nat.succ_le_succ (Line.terminators_mono _ hle)
  · intro k
    apply atLine_iterate

/-- Each of the three terminators ends one line, also for a cursor between the two characters of the
first one. -/
theorem lines_agree_in_mixed_text :
  let s := Source.ofString "A\r\nB\rC\n"
  Within (s.cursor 2) ∧ (s.cursor 2).skipLine.pos = 3 ∧
  (s.cursor 2).lineOf 2 = 1 ∧ (s.cursor 2).lineOf 3 = 2 ∧
  terminators s.chars s.chars.length = 3 ∧ AtLine s 3 (skipLine^[3] (s.cursor 0))
  := by
  intro s
  have hwithin : Within (s.cursor 2) := by
    show 2 ≤ s.chars.length
    decide
  have hcount : terminators s.chars s.chars.length = 3 := by decide
  obtain ⟨-, -, -, -, -, hlines⟩ := lines_agree hwithin
  exact ⟨hwithin, rfl, rfl, rfl, hcount, hlines 3 hcount.ge⟩

end LineBasic.Cursor
