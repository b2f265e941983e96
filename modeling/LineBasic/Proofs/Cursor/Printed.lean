import LineBasic.Proofs.Cursor.Line
import LineBasic.Proofs.Token.Lexeme

/-!
# Reading printed tokens

The text of a token that can be read is a spelling of it.  With a space between each two, the texts
of such tokens do not run into each other, and the same tokens are read from them again.
-/

namespace LineBasic

namespace Token

variable {w : List Char} {t : Token}

/-- The token can be read: it is a delimiter, a keyword or the end of a line; a name, the characters
of which are a run that starts with a letter and is no keyword in any case; a number, the characters
of which are a run that starts with a digit; or a quoted text with no quote and no character of a
terminator in it. -/
def Legible : Token → Prop
  | .delimiter _ | .keyword _ | .endOfLine => True
  | .name s => Run Char.isAlpha s.toList ∧ ∀ k : Keyword, s.toList.map Char.toUpper ≠ k.text.toList
  | .number s => Run Char.isDigit s.toList
  | .quoted s => ∀ c ∈ s.toList, c ≠ '"' ∧ Line.isEnd c = false
  | .endOfProgram => False

/-- A token that can be read is spelled by its text. -/
theorem Legible.spells (h : t.Legible) :
  Spells t.text.toList t
  := by
  cases t with
  | delimiter d => exact .delimiter d
  | keyword k =>
    apply Spells.keyword
    cases k
    all_goals decide
  | endOfLine => exact .endOfLine .lineFeed
  | name s =>
    have hname := Spells.name h.1 h.2
    rw [String.ofList_toList] at hname
    apply hname
  | number s =>
    have hnumber := Spells.number h
    rw [String.ofList_toList] at hnumber
    apply hnumber
  | quoted s =>
    have hquoted := Spells.quoted h
    rw [String.ofList_toList] at hquoted
    have htext : (text (.quoted s)).toList = '"' :: (s.toList ++ ['"']) := by simp [text]
    rw [htext]
    apply hquoted
  | endOfProgram => contradiction

/-- What is spelled can be read. -/
theorem Spells.legible (h : Spells w t) :
  t.Legible
  := by
  cases h with
  | endOfLine | delimiter | keyword => trivial
  | name hw hk =>
    rw [Legible, String.toList_ofList]
    exact ⟨hw, hk⟩
  | number hw =>
    rw [Legible, String.toList_ofList]
    apply hw
  | quoted hw =>
    rw [Legible, String.toList_ofList]
    apply hw

/-- The texts of tokens, with a space between each two. -/
def spaced (ts : List Token) : List Char :=
  [' '].intercalate (ts.map fun t => t.text.toList)

theorem toList_intercalate_text (ts : List Token) :
  (" ".intercalate (ts.map Token.text)).toList = spaced ts
  := by
  rw [String.toList_intercalate, List.map_map]
  rfl

/-- Spaced texts do not start with a blank. -/
theorem dropWhile_spaced {ts : List Token} (hts : ∀ t ∈ ts, t.Legible) :
  (spaced ts).dropWhile isBlank = spaced ts
  := by
  cases ts with
  | nil => rfl
  | cons t ts =>
    obtain ⟨c, r, htext, hc⟩ := (hts t List.mem_cons_self).spells.head
    rw [spaced, List.map_cons, htext, List.intercalate_cons_cons_left,
      List.dropWhile_cons_of_neg]
    rw [hc]
    exact Bool.false_ne_true

/-- After the text of the first token come the spaced texts of the others, but for a blank. -/
theorem exists_spaced_cons {ts : List Token} (hts : ∀ t ∈ ts, t.Legible) (t : Token) :
  ∃ r, spaced (t :: ts) = t.text.toList ++ r ∧ (∀ c ∈ r.head?, isBlank c = true) ∧
    r.dropWhile isBlank = spaced ts
  := by
  cases ts with
  | nil =>
    use []
    simp [spaced]
  | cons u us =>
    refine ⟨' ' :: spaced (u :: us), ?_, ?_, ?_⟩
    · simp only [spaced, List.map_cons, List.intercalate_cons_cons, List.append_assoc,
        List.singleton_append]
    · rintro _ ⟨⟩
      rfl
    · rw [List.dropWhile_cons_of_pos rfl, dropWhile_spaced hts]

end Token

namespace Cursor

variable {c c₁ c₂ : Cursor} {w r : List Char} {t : Token} {ts : List Token} {n : Nat}

/-- The token that is scanned after the blanks is read, and the text after it is left. -/
theorem exists_next_of_scan? (h : Token.scan? c.skipBlanks.rest = some (t, n)) :
  ∃ c', next c = .ok t c' ∧ c'.rest = c.skipBlanks.rest.drop n
  := ⟨_, next_eq_ok_iff.mpr ⟨n, h, rfl⟩, rest_pass _ _⟩

/-- A token that is spelled after the blanks is read, if it is followed by a blank or by nothing. -/
theorem exists_next_of_spells (h : Token.Spells w t) (hrest : c.skipBlanks.rest = w ++ r)
    (hr : ∀ x ∈ r.head?, isBlank x = true) :
  ∃ c', next c = .ok t c' ∧ c'.rest = r
  := by
  have hscan := h.scan?_append hr
  rw [← hrest] at hscan
  obtain ⟨c', hnext, hrest'⟩ := exists_next_of_scan? hscan
  rw [hrest, List.drop_left] at hrest'
  exact ⟨c', hnext, hrest'⟩

/-- Where nothing but blanks is left, the end of the program is read at the end of the text. -/
theorem next_of_rest_eq_nil (hc : Within c) (h : c.skipBlanks.rest = []) :
  next c = .ok .endOfProgram (c.source.cursor c.source.chars.length)
  := by
  have hpos : c.skipBlanks.pos = c.source.chars.length := by
    have hle := hc.skipBlanks
    rw [rest_eq, List.drop_eq_nil_iff] at h
    apply Nat.le_antisymm hle h
  apply next_eq_ok_iff.mpr
  use 0
  rw [h, pass, hpos]
  exact ⟨rfl, rfl⟩

/-- Tokens are read from their spaced texts. -/
theorem exists_reads_of_spaced (hts : ∀ t ∈ ts, t.Legible)
    (hrest : c.skipBlanks.rest = Token.spaced ts) :
  ∃ c', Reads c ts c' ∧ c'.skipBlanks.rest = []
  := by
  induction ts generalizing c with
  | nil => exact ⟨c, .nil c, hrest⟩
  | cons t ts ih =>
    rw [List.forall_mem_cons] at hts
    obtain ⟨r, hcons, hr, hdrop⟩ := Token.exists_spaced_cons hts.2 t
    rw [hcons] at hrest
    obtain ⟨c₁, hnext, hrest₁⟩ := exists_next_of_spells hts.1.spells hrest hr
    rw [← hrest₁, ← rest_skipBlanks] at hdrop
    obtain ⟨c', hreads, hend⟩ := ih hts.2 hdrop
    exact ⟨c', .cons hnext hreads, hend⟩

/-- The source with the texts of tokens, with a space between each two. -/
def printed (ts : List Token) : Source :=
  Source.ofString (" ".intercalate (ts.map Token.text))

theorem rest_printed (hts : ∀ t ∈ ts, t.Legible) :
  ((printed ts).cursor 0).skipBlanks.rest = Token.spaced ts
  := by
  have hchars : (printed ts).chars = Token.spaced ts := Token.toList_intercalate_text ts
  rw [rest_skipBlanks, rest_eq, ← Token.dropWhile_spaced hts, ← hchars]
  rfl

/-- The tokens that can be read are those that some cursor reads before the end of the program. -/
theorem legible_iff_exists_next :
  t.Legible ↔ t ≠ .endOfProgram ∧ ∃ c c', next c = .ok t c'
  := by
  constructor
  · intro h
    constructor
    · rintro rfl
      apply h
    · have hts : ∀ u ∈ [t], u.Legible := by
        rw [List.forall_mem_singleton]
        apply h
      obtain ⟨c', hreads, -⟩ := exists_reads_of_spaced hts (rest_printed hts)
      exact ⟨_, c', reads_singleton_iff.mp hreads⟩
  · rintro ⟨ht, c, c', hnext⟩
    obtain ⟨n, hscan, -⟩ := next_eq_ok_iff.mp hnext
    apply ((Token.scanned_of_scan? hscan).spells ht).legible

/-- The outcomes of reading again and again are the tokens that are read, up to the end of the
program. -/
theorem Reads.outcomes_eq (h : Reads c ts c₁) (hts : .endOfProgram ∉ ts)
    (hend : next c₁ = .ok .endOfProgram c₂) (hn : ts.length < n) :
  (outcomes n c).map Prod.fst = ts.map .ok ++ [.ok .endOfProgram]
  := by
  induction h generalizing n with
  | nil c =>
    cases n with
    | zero => contradiction
    | succ n =>
      rw [outcomes, hend]
      rfl
  | @cons c c₁ _ t ts hnext _ ih =>
    rw [List.mem_cons, not_or] at hts
    cases n with
    | zero => contradiction
    | succ n =>
      have htail := ih hts.2 hend (Nat.lt_of_succ_lt_succ hn)
      rw [outcomes, hnext]
      simp only [if_neg (Ne.symm hts.1), List.map_cons, htail, List.cons_append]

/-- Let a new cursor read the texts of tokens that can be read, with a space between each two.  It
reads exactly these tokens, and then the end of the program. -/
theorem reads_printed_tokens (hts : ∀ t ∈ ts, t.Legible) :
  (allOutcomes ((printed ts).cursor 0)).map Prod.fst = ts.map .ok ++ [.ok .endOfProgram]
  := by
  obtain ⟨c, hreads, hrest⟩ := exists_reads_of_spaced hts (rest_printed hts)
  have hend := next_of_rest_eq_nil (hreads.within (Nat.zero_le _)) hrest
  have hmem : .endOfProgram ∉ ts := fun h => hts _ h
  have hle := hreads.length_le hmem
  apply hreads.outcomes_eq hmem hend
  omega

/-- Next to each other, the two halves of a longer delimiter, two words and two numbers are read
apart, and a quote in a name is a part of it. -/
theorem reads_printed_tokens_of_neighbours :
  let ts := [.number "10", .number "1.5", .keyword .ifWord, .name "A\"\u00fc", .delimiter .less,
    .delimiter .equal, .quoted " = ", .endOfLine]
  (∀ t ∈ ts, t.Legible) ∧
  (allOutcomes ((printed ts).cursor 0)).map Prod.fst = ts.map .ok ++ [.ok .endOfProgram]
  := by
  intro ts
  have hten : Token.Run Char.isDigit "10".toList :=
    ⟨⟨_, _, rfl, rfl⟩, by simp [Token.Breaks, isBlank, Line.isEnd, Delimiter.marks]⟩
  have hhalf : Token.Run Char.isDigit "1.5".toList :=
    ⟨⟨_, _, rfl, rfl⟩, by simp [Token.Breaks, isBlank, Line.isEnd, Delimiter.marks]⟩
  have hname : Token.Legible (.name "A\"\u00fc") := by
    refine ⟨⟨⟨_, _, rfl, rfl⟩, ?_⟩, ?_⟩
    · simp [Token.Breaks, isBlank, Line.isEnd, Delimiter.marks]
    · intro k
      cases k
      all_goals decide
  have hquoted : Token.Legible (.quoted " = ") := by
    simp [Token.Legible, Line.isEnd]
  have hts : ∀ t ∈ ts, t.Legible := by
    simp only [ts, List.forall_mem_cons]
    exact ⟨hten, hhalf, trivial, hname, trivial, trivial, hquoted, trivial, List.forall_mem_nil _⟩
  exact ⟨hts, reads_printed_tokens hts⟩

end Cursor

end LineBasic
