import LineBasic.Proofs.Cursor.Line
import LineBasic.Proofs.Token.Lexeme

/-!
# Reading the longest token

A token is read from the first character on that is no blank.  What is read there depends on nothing
but the text from there on: it is the token with the longest spelling, and the cursor is moved over
this spelling.
-/

namespace LineBasic.Cursor

open Token (Spells Longest Ends Heads)

variable {c c' : Cursor} {cs : List Char} {n start : Nat} {t : Token}

/-- The offset of the first character from the offset `n` on that is no blank, or of the end of the
text. -/
structure SkipsTo (cs : List Char) (n start : Nat) : Prop where
  le : n ≤ start
  le_length : start ≤ cs.length
  isBlank_eq : ∀ i x, n ≤ i → i < start → cs[i]? = some x → isBlank x = true
  stops : ∀ x, cs[start]? = some x → isBlank x = false

/-- Blanks are skipped up to the first character that is none. -/
theorem skipsTo_skipBlanks (hc : Within c) :
  SkipsTo c.source.chars c.pos c.skipBlanks.pos
  := by
  constructor
  · apply Nat.le_add_right
  · apply hc.skipBlanks
  · intro i x hle hlt hget
    obtain ⟨k, rfl⟩ := Nat.exists_eq_add_of_le hle
    have hk : k < (c.rest.takeWhile isBlank).length := Nat.add_lt_add_iff_left.mp hlt
    rw [← List.getElem?_drop, ← rest_eq, ← List.takeWhile_append_dropWhile (p := isBlank) (l := c.rest),
      List.getElem?_append_left hk] at hget
    apply List.mem_takeWhile_imp (List.mem_of_getElem? hget)
  · intro x hget
    apply isBlank_of_mem_head? (c := c)
    rw [rest_eq, List.head?_drop]
    apply hget

/-- The text from an offset on starts with a quoted text that is not closed in its line. -/
def Unclosed (cs : List Char) (start : Nat) : Prop :=
  cs[start]? = some '"' ∧ '"' ∉ (cs.drop (start + 1)).takeWhile fun x => !Line.isEnd x

theorem unclosed_iff :
  Unclosed cs start ↔
    ∃ r, cs.drop start = '"' :: r ∧ '"' ∉ r.takeWhile fun x => !Line.isEnd x
  := by
  rw [Unclosed, ← List.head?_drop, List.head?_eq_some_iff]
  constructor
  · rintro ⟨⟨r, hr⟩, hopen⟩
    refine ⟨r, hr, ?_⟩
    rw [← List.drop_drop, hr, List.drop_succ_cons, List.drop_zero] at hopen
    apply hopen
  · rintro ⟨r, hr, hopen⟩
    refine ⟨⟨r, hr⟩, ?_⟩
    rw [← List.drop_drop, hr, List.drop_succ_cons, List.drop_zero]
    apply hopen

/-- From every offset of every source, let the first character that is no blank, or else the end of
the text, be at the offset `start`.  Reading fails exactly where a quoted text that is not closed in
its line starts there, and leaves the cursor there.  It yields the end of the program exactly where
the text ends there, or the character is the first one of no token, and leaves the cursor there.  It
yields any other token exactly where the text there starts with a spelling of this token that is
longer than all other spellings with which it starts, so that what follows cannot go on with it; the
cursor is moved over the spelling, and remembers its length. -/
theorem reads_longest_spelling (hc : Within c) :
  ∃ start, SkipsTo c.source.chars c.pos start ∧
    ((∃ f c', next c = .error f c') ↔ Unclosed c.source.chars start) ∧
    (∀ f c', next c = .error f c' →
      f = Fault.of .missingClosingQuote ∧ c' = c.source.cursor start) ∧
    ((∃ c', next c = .ok .endOfProgram c') ↔
      start = c.source.chars.length ∨ ∃ x, c.source.chars[start]? = some x ∧ ¬ Heads x) ∧
    (∀ c', next c = .ok .endOfProgram c' → c' = c.source.cursor start) ∧
    ∀ t c', t ≠ .endOfProgram →
      (next c = .ok t c' ↔ ∃ w r, c.source.chars.drop start = w ++ r ∧ Longest (w ++ r) w t ∧
        Ends w r t ∧ c' = { source := c.source, pos := start + w.length, last := w.length })
  := by
  have hstart := skipsTo_skipBlanks hc
  have hskip : c.skipBlanks = c.source.cursor c.skipBlanks.pos := rfl
  have hrest : c.skipBlanks.rest = c.source.chars.drop c.skipBlanks.pos := rest_eq _
  generalize c.skipBlanks.pos = start at hstart hskip hrest
  have hlength := hstart.le_length
  refine ⟨start, hstart, ?_⟩
  and_intros
  · rw [unclosed_iff, ← hrest, ← Token.scan?_eq_none_iff]
    constructor
    · rintro ⟨f, c', h⟩
      apply (next_eq_error_iff.mp h).1
    · intro h
      exact ⟨_, _, next_eq_error_iff.mpr ⟨h, rfl, rfl⟩⟩
  · intro f c' h
    obtain ⟨-, rfl, rfl⟩ := next_eq_error_iff.mp h
    exact ⟨rfl, hskip⟩
  · have hhead : (start = c.source.chars.length ∨ ∃ x, c.source.chars[start]? = some x ∧ ¬ Heads x) ↔
        ∀ x ∈ (c.source.chars.drop start).head?, ¬ Heads x := by
      rw [List.head?_drop]
      cases hget : c.source.chars[start]? with
      | none =>
        have hend := Nat.le_antisymm hlength (List.getElem?_eq_none_iff.mp hget)
        exact ⟨fun _ => nofun, fun _ => .inl hend⟩
      | some x =>
        have hlt := (List.getElem?_eq_some_iff.mp hget).1
        simp [hlt.ne]
    rw [hhead, ← hrest, ← Token.scan?_eq_endOfProgram_iff]
    constructor
    · rintro ⟨c', h⟩
      obtain ⟨n, hn, -⟩ := next_eq_ok_iff.mp h
      exact ⟨n, hn⟩
    · rintro ⟨n, hn⟩
      exact ⟨_, next_eq_ok_iff.mpr ⟨n, hn, rfl⟩⟩
  · intro c' h
    obtain ⟨n, hn, rfl⟩ := next_eq_ok_iff.mp h
    rw [(Token.scanned_of_scan? hn).length_eq_zero, hskip]
    rfl
  · intro t c' ht
    rw [next_eq_ok_iff, hrest, hskip]
    simp only [Token.scan?_eq_some_iff ht]
    constructor
    · rintro ⟨n, ⟨w, hw, rfl⟩, rfl⟩
      obtain ⟨r, hr⟩ := hw.isPrefix
      rw [← hr] at hw
      exact ⟨w, r, hr.symm, hw, hw.ends, rfl⟩
    · rintro ⟨w, r, hr, hw, -, rfl⟩
      rw [hr]
      exact ⟨w.length, ⟨w, hw, rfl⟩, rfl⟩

/-- After a name and two blanks, the two characters of `<=` are read as one delimiter, since they
spell one and `<=1` does not. -/
theorem reads_longest_spelling_of_pair :
  Within ((Source.ofString "A\t <=1").cursor 1) ∧
  next ((Source.ofString "A\t <=1").cursor 1) =
    .ok (.delimiter .lessEqual) { source := Source.ofString "A\t <=1", pos := 5, last := 2 } ∧
  ∃ start w r, SkipsTo (Source.ofString "A\t <=1").chars 1 start ∧ start + w.length = 5 ∧
    (Source.ofString "A\t <=1").chars.drop start = w ++ r ∧
    Longest (w ++ r) w (.delimiter .lessEqual) ∧ Ends w r (.delimiter .lessEqual)
  := by
  have hwithin : Within ((Source.ofString "A\t <=1").cursor 1) := by
    show 1 ≤ (Source.ofString "A\t <=1").chars.length
    decide
  have hnext : next ((Source.ofString "A\t <=1").cursor 1) =
      .ok (.delimiter .lessEqual) { source := Source.ofString "A\t <=1", pos := 5, last := 2 } := rfl
  obtain ⟨start, hstart, -, -, -, -, htokens⟩ := reads_longest_spelling hwithin
  obtain ⟨w, r, hsplit, hlongest, hends, hcursor⟩ :=
    (htokens (.delimiter .lessEqual) _ nofun).mp hnext
  have hpos := congrArg pos hcursor
  exact ⟨hwithin, hnext, start, w, r, hstart, hpos.symm, hsplit, hlongest, hends⟩

end LineBasic.Cursor
