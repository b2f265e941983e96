import LineBasic.Proofs.Cursor.Lines

/-!
# Giving one token back

Tokens are read and given back, lines are skipped and offsets jumped to, in any order.  Whatever has
been done to a cursor, it remembers the length of a token exactly when this token is what has been
read last, with nothing done since.  So this token can be given back, but none from before it, and is
then read again.
-/

namespace LineBasic.Cursor

open Token (Longest)

variable {c c' : Cursor} {s : Source} {r : Option (Except Fault Token)} {f : Fault} {t : Token}

/-! ### Operations -/

/-- What can be done to a cursor.  To read comes to a token or to a fault. -/
inductive Operation (c : Cursor) : Option (Except Fault Token) → Cursor → Prop
  | token {t : Token} {c' : Cursor} (h : next c = .ok t c') : Operation c (some (.ok t)) c'
  | fault {f : Fault} {c' : Cursor} (h : next c = .error f c') : Operation c (some (.error f)) c'
  | pushBack : Operation c none c.pushBack
  | skipLine : Operation c none c.skipLine
  | jump {n : Nat} (h : n ≤ c.source.chars.length) : Operation c none (c.jump n)

/-- Operations, in any order, lead from the start of the source to the cursor.  The token or the
fault is the one to which the last of them has come, if this was to read. -/
inductive Operated (s : Source) : Option (Except Fault Token) → Cursor → Prop
  | first : Operated s none (s.cursor 0)
  | step {q r : Option (Except Fault Token)} {c c' : Cursor} (h : Operated s q c)
    (hc : Operation c r c') : Operated s r c'

theorem Operation.source_eq (h : Operation c r c') :
  c'.source = c.source
  := by
  cases h with
  | token h => apply (keeps_ahead_next.of_ok h).source_eq
  | fault h => apply (keeps_ahead_next.of_error h).source_eq
  | pushBack | skipLine | jump => rfl

/-- No operation leaves the source. -/
theorem Operation.within (h : Operation c r c') (hc : Within c) :
  Within c'
  := by
  cases h with
  | token h => apply hc.next h
  | fault h =>
    obtain ⟨-, -, rfl⟩ := next_eq_error_iff.mp h
    apply hc.skipBlanks
  | pushBack => apply hc.pushBack
  | skipLine => apply hc.skipLine
  | jump h => apply h

theorem Operated.source_eq (h : Operated s r c) :
  c.source = s
  := by
  induction h with
  | first => rfl
  | step _ hc ih => apply hc.source_eq.trans ih

theorem Operated.within (h : Operated s r c) :
  Within c
  := by
  induction h with
  | first => apply Nat.zero_le
  | step _ hc ih => apply hc.within ih

/-! ### The length of a token -/

/-- No token but the end of the program is without length. -/
theorem last_eq_zero_iff_of_next (h : next c = .ok t c') :
  c'.last = 0 ↔ t = .endOfProgram
  := by
  obtain ⟨n, hscan, rfl⟩ := next_eq_ok_iff.mp h
  have hscanned := Token.scanned_of_scan? hscan
  constructor
  · intro hlast
    by_contra ht
    apply (hscanned.length_pos ht).ne hlast.symm
  · rintro rfl
    apply hscanned.length_eq_zero

/-- The length of the token that has been read is that of its spelling. -/
theorem exists_longest_of_next (h : next c = .ok t c') (ht : t ≠ .endOfProgram) :
  ∃ w, Longest (c'.source.chars.drop c'.start) w t ∧ c'.last = w.length
  := by
  have hstart := start_of_next h
  obtain ⟨n, hscan, rfl⟩ := next_eq_ok_iff.mp h
  rw [hstart]
  rw [rest_eq] at hscan
  apply (Token.scan?_eq_some_iff ht).mp hscan

/-! ### Giving back -/

/-- What has been read by the last operation, a token or a fault, is read again after it has been
given back.  If the last operation was not to read, then there is nothing to be given back. -/
inductive Remembers : Option (Except Fault Token) → Cursor → Prop
  | token {c : Cursor} {t : Token} (h : next c.pushBack = .ok t c) : Remembers (some (.ok t)) c
  | fault {c : Cursor} {f : Fault} (h : next c.pushBack = .error f c) :
    Remembers (some (.error f)) c
  | nothing {c : Cursor} (h : c.last = 0) : Remembers none c

theorem Operation.remembers (h : Operation c r c') :
  Remembers r c'
  := by
  cases h with
  | token h => apply Remembers.token (next_pushBack h)
  | fault h => apply Remembers.fault (next_pushBack_of_error h)
  | pushBack | skipLine | jump => apply Remembers.nothing rfl

theorem Operated.remembers (h : Operated s r c) :
  Remembers r c
  := by
  cases h with
  | first => apply Remembers.nothing rfl
  | step _ hc => apply hc.remembers

theorem Remembers.last_le (h : Remembers r c) :
  c.last ≤ c.pos
  := by
  cases h with
  | token h => apply last_le_of_next h
  | fault h =>
    rw [last_eq_zero_of_error h]
    apply Nat.zero_le
  | nothing h =>
    rw [h]
    apply Nat.zero_le

/-- A length is remembered exactly when a token has been read, other than the end of the program. -/
theorem Remembers.last_eq_zero_iff (h : Remembers r c) :
  c.last = 0 ↔ ∀ t, r = some (.ok t) → t = .endOfProgram
  := by
  cases h with
  | token h => simp [last_eq_zero_iff_of_next h]
  | fault h => simp [last_eq_zero_of_error h]
  | nothing h => simp [h]

/-- Whatever is given back but the end of a line is given back into the same line. -/
theorem Remembers.lineOf_pushBack (h : Remembers r c) (hr : r ≠ some (.ok .endOfLine)) :
  c.pushBack.lineOf c.pushBack.pos = c.lineOf c.pos
  := by
  symm
  cases h with
  | token h =>
    apply lineOf_of_next h
    rintro rfl
    contradiction
  | fault h => apply lineOf_of_error h
  | nothing h => rw [pushBack_eq_self_iff.mpr h]

/-- From the start of every source let tokens be read and given back, lines be skipped, and offsets in
the source be jumped to, in any order.  The cursor is in the source then, and the token that it
remembers is no longer than the text before it.  Giving back moves the cursor to the start of this
token, where none is remembered, so that giving back once more changes nothing.  The first time it
changes nothing exactly when the last operation has not read a token, or has read the end of the
program.  It leads to the line before if the token was the end of a line, and stays in the line
otherwise.  What is given back is the spelling of the token.  The same token is then read again, or the
same fault met again, and the cursor is where it was before, with the same token remembered. -/
theorem gives_back_one_token (h : Operated s r c) :
  (c.last ≤ c.pos ∧ c.pos ≤ s.chars.length) ∧
  c.pushBack = s.cursor c.start ∧
  c.pushBack.pushBack = c.pushBack ∧
  (c.pushBack = c ↔ ∀ t, r = some (.ok t) → t = .endOfProgram) ∧
  (r ≠ some (.ok .endOfLine) → c.pushBack.lineOf c.pushBack.pos = c.lineOf c.pos) ∧
  (r = some (.ok .endOfLine) → c.pushBack.lineOf c.pushBack.pos + 1 = c.lineOf c.pos) ∧
  (∀ t, r = some (.ok t) → t ≠ .endOfProgram →
    ∃ w, Longest (s.chars.drop c.start) w t ∧ c.last = w.length) ∧
  (∀ t, r = some (.ok t) → next c.pushBack = .ok t c) ∧
  ∀ f, r = some (.error f) → next c.pushBack = .error f c
  := by
  have hremembers := h.remembers
  have hwithin := h.within
  obtain rfl := h.source_eq
  refine ⟨⟨hremembers.last_le, hwithin⟩, rfl, pushBack_eq_self_iff.mpr rfl, ?_⟩
  and_intros
  · rw [pushBack_eq_self_iff, hremembers.last_eq_zero_iff]
  · apply hremembers.lineOf_pushBack
  · rintro rfl
    cases hremembers with
    | token h =>
      symm
      apply lineOf_of_endOfLine h
  · rintro t rfl ht
    cases hremembers with
    | token h => apply exists_longest_of_next h ht
  · rintro t rfl
    cases hremembers with
    | token h => apply h
  · rintro f rfl
    cases hremembers with
    | fault h => apply h

/-- After a line has been skipped, and a delimiter been read, given back and read again, both
characters of the terminator are given back, into the line that they end. -/
theorem gives_back_one_token_of_terminator :
  let s := Source.ofString "A\t<>\r\nB"
  let c : Cursor := { source := s, pos := 6, last := 2 }
  Operated s (some (.ok .endOfLine)) c ∧ c.pushBack = s.cursor 4 ∧ c.pushBack ≠ c ∧
  c.lineOf 6 = 2 ∧ c.pushBack.lineOf 4 + 1 = 2 ∧ next c.pushBack = .ok .endOfLine c
  := by
  intro s c
  have hskipped : Operated s none (s.cursor 6) := .step .first .skipLine
  have hjumped : Operated s none (s.cursor 1) := .step hskipped (.jump (by decide))
  have hread : Operated s (some (.ok (.delimiter .notEqual))) { source := s, pos := 4, last := 2 } :=
    .step hjumped (.token rfl)
  have hagain : Operated s (some (.ok (.delimiter .notEqual))) { source := s, pos := 4, last := 2 } :=
    .step (.step hread .pushBack) (.token rfl)
  have hend : Operated s (some (.ok .endOfLine)) c := .step hagain (.token rfl)
  obtain ⟨-, hback, -, hself, -, hline, -, hnext, -⟩ := gives_back_one_token hend
  refine ⟨hend, hback, ?_, rfl, hline rfl, hnext .endOfLine rfl⟩
  intro heq
  have htoken := hself.mp heq .endOfLine rfl
  contradiction

end LineBasic.Cursor
