import LineBasic.Token.Scan
import Mathlib.Data.List.TakeWhile
import Mathlib.Tactic.Use

/-!
# The extent of tokens

The token at the head of a text takes up at least one character of the text, unless it is
the end of the program, and no more characters than the text has.  `Token.Scanned` lists
the ways in which a token can be read, each with what is known of the text in that case.
-/

namespace LineBasic

namespace Delimiter

/-- What the next character has to do with the delimiter that the first one starts. -/
theorem longest?_cons (c : Char) (cs : List Char) :
  longest? (c :: cs) =
    if c = '<' ∧ cs.head? = some '>' then some notEqual
    else if c = '<' ∧ cs.head? = some '=' then some lessEqual
    else if c = '>' ∧ cs.head? = some '=' then some greaterEqual
    else ofChar? c
  := by
  rw [longest?.eq_def]
  split
  · contradiction
  · next heq =>
    cases heq
    rfl
  · next heq =>
    cases heq
    rfl
  · next heq =>
    cases heq
    rfl
  · next hne hle hge heq =>
    cases heq
    rw [if_neg, if_neg, if_neg]
    · rintro ⟨rfl, hhead⟩
      obtain ⟨r, rfl⟩ := List.head?_eq_some_iff.mp hhead
      apply hge r rfl rfl
    · rintro ⟨rfl, hhead⟩
      obtain ⟨r, rfl⟩ := List.head?_eq_some_iff.mp hhead
      apply hle r rfl rfl
    · rintro ⟨rfl, hhead⟩
      obtain ⟨r, rfl⟩ := List.head?_eq_some_iff.mp hhead
      apply hne r rfl rfl

/-- A text starts with a delimiter exactly when its first character is one. -/
theorem longest?_eq_none_iff {c : Char} {cs : List Char} :
  longest? (c :: cs) = none ↔ ofChar? c = none
  := by
  rw [longest?_cons]
  split_ifs with hne hle hge
  · rw [hne.1]
    decide
  · rw [hle.1]
    decide
  · rw [hge.1]
    decide
  · rfl

theorem length_text_pos (d : Delimiter) :
  0 < d.text.length
  := by
  cases d <;> decide

/-- A delimiter that is a character is spelled by it. -/
theorem text_of_ofChar? {c : Char} {d : Delimiter} (h : ofChar? c = some d) :
  d.text.toList = [c]
  := by
  unfold ofChar? at h
  split at h <;> cases h <;> rfl

/-- A delimiter that is a character is written with one. -/
theorem length_text_of_ofChar? {c : Char} {d : Delimiter} (h : ofChar? c = some d) :
  d.text.length = 1
  := by
  rw [← String.length_toList, text_of_ofChar? h, List.length_singleton]

/-- The delimiter at the head of a text is spelled by its first characters. -/
theorem exists_of_longest? {cs : List Char} {d : Delimiter} (h : longest? cs = some d) :
  ∃ r, cs = d.text.toList ++ r
  := by
  unfold longest? at h
  split at h
  · contradiction
  · cases h
    exact ⟨_, rfl⟩
  · cases h
    exact ⟨_, rfl⟩
  · cases h
    exact ⟨_, rfl⟩
  · rw [text_of_ofChar? h]
    exact ⟨_, rfl⟩

theorem take_length_text {cs : List Char} {d : Delimiter} (h : longest? cs = some d) :
  cs.take d.text.length = d.text.toList
  := by
  obtain ⟨r, rfl⟩ := exists_of_longest? h
  rw [← String.length_toList, List.take_left]

/-- No delimiter has a character of a terminator. -/
theorem isEnd_of_mem_text {d : Delimiter} {c : Char} (h : c ∈ d.text.toList) :
  Line.isEnd c = false
  := by
  have hall : d.text.toList.all (fun c => !Line.isEnd c) = true := by
    cases d
    all_goals rfl
  rw [List.all_eq_true] at hall
  rw [← Bool.not_eq_true', hall c h]

/-- The delimiter at the head of a text is no longer than the text. -/
theorem length_text_le {cs : List Char} {d : Delimiter} (h : longest? cs = some d) :
  d.text.length ≤ cs.length
  := by
  obtain ⟨r, rfl⟩ := exists_of_longest? h
  rw [List.length_append, String.length_toList]
  apply Nat.le_add_right

end Delimiter

namespace Token

/-- The ways to read a token, with its length, at the head of a text. -/
inductive Scanned : List Char → Token → Nat → Prop
  /-- A text without characters is the end of the program. -/
  | nil : Scanned [] .endOfProgram 0
  /-- A terminator ends a line. -/
  | endOfLine {c : Char} {cs : List Char} (hc : Line.isEnd c = true) :
    Scanned (c :: cs) .endOfLine (Line.terminator (c :: cs))
  /-- A delimiter is as long as it can be. -/
  | delimiter {c : Char} {cs : List Char} {d : Delimiter} (hc : Line.isEnd c = false)
    (hd : Delimiter.longest? (c :: cs) = some d) :
    Scanned (c :: cs) (.delimiter d) d.text.length
  /-- A letter starts a word. -/
  | word {c : Char} {cs : List Char} (hc : isBreak c = false) (ha : c.isAlpha = true) :
    Scanned (c :: cs) (ofWord (unbroken (c :: cs))) (unbroken (c :: cs)).length
  /-- A digit starts a number. -/
  | number {c : Char} {cs : List Char} (hc : isBreak c = false) (hd : c.isDigit = true) :
    Scanned (c :: cs) (.number (String.ofList (unbroken (c :: cs)))) (unbroken (c :: cs)).length
  /-- A quote starts a text up to the next quote. -/
  | quoted {cs s : List Char} (hs : closed? cs = some s) :
    Scanned ('"' :: cs) (.quoted (String.ofList s)) (s.length + 2)
  /-- Any other character is the end of the program. -/
  | endOfProgram {c : Char} {cs : List Char} (hc : Line.isEnd c = false)
    (hd : Delimiter.longest? (c :: cs) = none) (ha : c.isAlpha = false) (hn : c.isDigit = false)
    (hq : c ≠ '"') :
    Scanned (c :: cs) .endOfProgram 0

private theorem isBreak_of_letter {c : Char} (hc : Line.isEnd c = false)
    (hd : Delimiter.ofChar? c = none) (h : c.isAlpha = true ∨ c.isDigit = true) :
  isBreak c = false
  := by
  have hb : isBlank c = false := by
    simp only [isBlank, Bool.or_eq_false_iff, decide_eq_false_iff_not]
    constructor
    · rintro rfl
      revert h
      decide
    · rintro rfl
      revert h
      decide
  simp [isBreak, hb, hc, hd]

/-- A token is read in one of the ways there are. -/
theorem scanned_of_scan? {cs : List Char} {t : Token} {n : Nat} (h : scan? cs = some (t, n)) :
  Scanned cs t n
  := by
  cases cs with
  | nil =>
    cases h
    apply Scanned.nil
  | cons c cs =>
    simp only [scan?] at h
    split at h
    · next hc =>
      cases h
      apply Scanned.endOfLine hc
    · next hc =>
      simp only [Bool.not_eq_true] at hc
      split at h
      · next d hd =>
        cases h
        apply Scanned.delimiter hc hd
      · next hd =>
        have hd' : Delimiter.longest? (c :: cs) = none := by
          cases hl : Delimiter.longest? (c :: cs) with
          | none => rfl
          | some d => exact absurd hl (hd d)
        have hch := Delimiter.longest?_eq_none_iff.mp hd'
        split at h
        · next ha =>
          cases h
          apply Scanned.word (isBreak_of_letter hc hch (.inl ha)) ha
        · next ha =>
          split at h
          · next hn =>
            cases h
            apply Scanned.number (isBreak_of_letter hc hch (.inr hn)) hn
          · next hn =>
            split at h
            · next hq =>
              subst hq
              obtain ⟨s, hs, heq⟩ := Option.map_eq_some_iff.mp h
              cases heq
              apply Scanned.quoted hs
            · next hq =>
              cases h
              simp only [Bool.not_eq_true] at ha hn
              apply Scanned.endOfProgram hc hd' ha hn hq

/-- A word or number that starts with a character starts with it. -/
theorem unbroken_cons {c : Char} (cs : List Char) (hc : isBreak c = false) :
  unbroken (c :: cs) = c :: unbroken cs
  := by
  simp [unbroken, hc]

/-- A word that is no keyword is a name. -/
theorem ofWord_cases (w : List Char) :
  (∃ k, ofWord w = .keyword k) ∨ ofWord w = .name (String.ofList w)
  := by
  rw [ofWord]
  cases Keyword.ofText? (String.ofList w) with
  | some k => exact .inl ⟨k, rfl⟩
  | none => exact .inr rfl

/-- No word ends a statement. -/
theorem isEnd_ofWord (w : List Char) :
  (ofWord w).isEnd = false
  := by
  rcases ofWord_cases w with ⟨k, h⟩ | h
  · rw [h]
    rfl
  · rw [h]
    rfl

theorem length_unbroken_le (cs : List Char) :
  (unbroken cs).length ≤ cs.length
  := by
  apply List.Sublist.length_le
  apply List.takeWhile_sublist

/-- A quoted text is closed by the first character that it does not run across. -/
theorem closed?_eq (cs : List Char) :
  closed? cs =
    if (cs.dropWhile isQuotable).head? = some '"' then some (cs.takeWhile isQuotable) else none
  := by
  rw [closed?]
  split
  · next h => rw [h, List.head?_cons, if_pos rfl]
  · next h =>
    rw [if_neg]
    intro hhead
    obtain ⟨r, hr⟩ := List.head?_eq_some_iff.mp hhead
    apply h r hr

/-- A quoted text is followed by a quote, and has itself neither quotes nor characters of
terminators. -/
theorem exists_of_closed? {cs s : List Char} (h : closed? cs = some s) :
  (∃ r, cs = s ++ '"' :: r) ∧ ∀ c ∈ s, isQuotable c = true
  := by
  rw [closed?_eq] at h
  split at h
  · next hhead =>
    cases h
    obtain ⟨r, hr⟩ := List.head?_eq_some_iff.mp hhead
    constructor
    · use r
      rw [← hr, List.takeWhile_append_dropWhile]
    · intro c hc
      apply List.mem_takeWhile_imp hc
  · contradiction

/-- A quoted text, its two quotes and all, is no longer than the text that it starts. -/
theorem length_closed?_lt {cs s : List Char} (h : closed? cs = some s) :
  s.length < cs.length
  := by
  obtain ⟨⟨r, rfl⟩, -⟩ := exists_of_closed? h
  rw [List.length_append, List.length_cons]
  omega

/-- A token is no longer than the text at whose head it is read. -/
theorem Scanned.length_le {cs : List Char} {t : Token} {n : Nat} (h : Scanned cs t n) :
  n ≤ cs.length
  := by
  cases h with
  | nil => simp
  | endOfLine hc =>
    rw [Line.terminator_cons, if_pos hc]
    split
    · next hpair =>
      obtain ⟨r, rfl⟩ := List.head?_eq_some_iff.mp hpair.2
      apply Nat.le_add_left
    · apply Nat.le_add_left
  | delimiter hc hd => apply Delimiter.length_text_le hd
  | word => apply length_unbroken_le
  | number => apply length_unbroken_le
  | quoted hs =>
    have h := length_closed?_lt hs
    rw [List.length_cons]
    omega
  | endOfProgram => simp

/-- Every token but the end of the program takes up a character. -/
theorem Scanned.length_pos {cs : List Char} {t : Token} {n : Nat} (h : Scanned cs t n)
    (ht : t ≠ .endOfProgram) :
  0 < n
  := by
  cases h with
  | nil => contradiction
  | @endOfLine c cs hc =>
    rw [Line.terminator_cons, if_pos hc]
    split
    all_goals decide
  | delimiter hc hd => apply Delimiter.length_text_pos
  | word hc ha => simp [unbroken_cons _ hc]
  | number hc hd => simp [unbroken_cons _ hc]
  | quoted hs => simp
  | endOfProgram => contradiction

/-- The end of the program takes up no character. -/
theorem Scanned.length_eq_zero {cs : List Char} {n : Nat} (h : Scanned cs .endOfProgram n) :
  n = 0
  := by
  generalize ht : Token.endOfProgram = t at h
  cases h with
  | nil => rfl
  | endOfProgram => rfl
  | @word c cs =>
    have hend := isEnd_ofWord (unbroken (c :: cs))
    rw [← ht] at hend
    contradiction
  | endOfLine | delimiter | number | quoted => contradiction

/-- The end of a line is a terminator. -/
theorem Scanned.isEnd_of_endOfLine {cs : List Char} {n : Nat} (h : Scanned cs .endOfLine n) :
  ∃ c r, cs = c :: r ∧ Line.isEnd c = true ∧ n = Line.terminator (c :: r)
  := by
  generalize ht : Token.endOfLine = t at h
  cases h with
  | @endOfLine c r hc =>
    use c, r
  | @word c cs =>
    have hend := isEnd_ofWord (unbroken (c :: cs))
    rw [← ht] at hend
    contradiction
  | nil | endOfProgram | delimiter | number | quoted => contradiction

/-- Words and numbers are the first characters of the text, and none of these is one of a
terminator. -/
private theorem isEnd_of_mem_take_unbroken {cs : List Char} {c : Char}
    (h : c ∈ cs.take (unbroken cs).length) :
  Line.isEnd c = false
  := by
  have hprefix : unbroken cs <+: cs := List.takeWhile_prefix _
  rw [← List.prefix_iff_eq_take.mp hprefix] at h
  have hbreak := List.mem_takeWhile_imp h
  simp only [isBreak, Bool.not_eq_true', Bool.or_eq_false_iff] at hbreak
  exact hbreak.1.2

/-- No token runs across a terminator, but for those that are one. -/
theorem Scanned.isEnd_of_mem_take {cs : List Char} {t : Token} {n : Nat} (h : Scanned cs t n)
    (ht : t ≠ .endOfLine) {c : Char} (hc : c ∈ cs.take n) :
  Line.isEnd c = false
  := by
  cases h with
  | nil => contradiction
  | endOfLine => contradiction
  | delimiter _ hd =>
    rw [Delimiter.take_length_text hd] at hc
    apply Delimiter.isEnd_of_mem_text hc
  | word => apply isEnd_of_mem_take_unbroken hc
  | number => apply isEnd_of_mem_take_unbroken hc
  | @quoted cs s hs =>
    obtain ⟨⟨r, rfl⟩, hquotable⟩ := exists_of_closed? hs
    have htake : ('"' :: (s ++ '"' :: r)).take (s.length + 2) = '"' :: (s ++ ['"']) := by
      rw [List.take_succ_cons, List.take_length_add_append, List.take_succ_cons, List.take_zero]
    rw [htake, List.mem_cons, List.mem_append, List.mem_singleton] at hc
    rcases hc with rfl | hc | rfl
    · rfl
    · have hq := hquotable c hc
      simp only [isQuotable, Bool.and_eq_true, Bool.not_eq_true'] at hq
      apply hq.2
    · rfl
  | endOfProgram => contradiction

/-- A name that is read starts with a letter. -/
theorem Scanned.isAlpha_of_name {cs : List Char} {s : String} {n : Nat}
    (h : Scanned cs (.name s) n) :
  ∃ c r, s.toList = c :: r ∧ c.isAlpha = true
  := by
  generalize ht : Token.name s = t at h
  cases h with
  | @word c cs hc ha =>
    use c, unbroken cs
    rw [unbroken_cons _ hc] at ht
    rcases ofWord_cases (c :: unbroken cs) with ⟨k, hk⟩ | hname
    · rw [hk] at ht
      contradiction
    · rw [hname] at ht
      cases ht
      constructor
      · simp
      · apply ha
  | nil => contradiction
  | endOfProgram => contradiction
  | endOfLine => contradiction
  | delimiter => contradiction
  | number => contradiction
  | quoted => contradiction

end Token

end LineBasic
