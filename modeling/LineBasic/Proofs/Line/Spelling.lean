import LineBasic.Proofs.Line.Tokens
import Mathlib.Data.List.Forall2

/-!
# Spellings of a line

A line can be written in several ways that make the same sense: with more blanks or fewer,
with its words in another case, and with other names for the same variables.
-/

namespace LineBasic

/-! ### Words -/

namespace Delimiter

/-- No delimiter is a letter. -/
theorem ofChar?_of_isAlpha {c : Char} (hc : c.isAlpha = true) :
  ofChar? c = none
  := by
  rw [ofChar?.eq_def]
  split
  all_goals first | contradiction | rfl

/-- No delimiter starts with a letter. -/
theorem longest?_of_isAlpha {c : Char} (hc : c.isAlpha = true) (cs : List Char) :
  longest? (c :: cs) = none
  := longest?_eq_none_iff.mpr (ofChar?_of_isAlpha hc)

end Delimiter

namespace Token

/-- Words and numbers run across letters. -/
theorem isBreak_of_isAlpha {c : Char} (hc : c.isAlpha = true) :
  isBreak c = false
  := by
  rw [isBreak, isBlank, Line.isEnd, Delimiter.ofChar?_of_isAlpha hc]
  simp only [Option.isSome_none, Bool.or_false, Bool.or_eq_false_iff, decide_eq_false_iff_not]
  and_intros
  all_goals
    rintro rfl
    contradiction

/-- The characters make up the whole word at the head of a text that goes on with `r`. -/
structure IsWord (w r : List Char) : Prop where
  unbroken_eq : unbroken (w ++ r) = w
  isAlpha : ∃ c cs, w = c :: cs ∧ c.isAlpha = true

theorem IsWord.ne_nil {w r : List Char} (h : IsWord w r) :
  w ≠ []
  := by
  obtain ⟨c, cs, rfl, -⟩ := h.isAlpha
  apply List.cons_ne_nil

/-- A word is scanned as a whole. -/
theorem scan?_of_isWord {w r : List Char} (h : IsWord w r) :
  scan? (w ++ r) = some (ofWord w, w.length)
  := by
  obtain ⟨c, cs, rfl, hc⟩ := h.isAlpha
  have hbreak := isBreak_of_isAlpha hc
  have hend : Line.isEnd c = false := by
    simp only [isBreak, Bool.or_eq_false_iff] at hbreak
    apply hbreak.1.2
  have hword := h.unbroken_eq
  rw [List.cons_append] at hword ⊢
  rw [scan?, hend, Delimiter.longest?_of_isAlpha hc, hc, hword]
  rfl

/-- Words in another case stand for the same. -/
theorem sense_ofWord_of_toUpper {w w' : List Char}
    (h : w.map Char.toUpper = w'.map Char.toUpper) :
  (ofWord w).sense = (ofWord w').sense
  := by
  have hupper : (String.ofList w).toUpper = (String.ofList w').toUpper := by
    rw [String.toUpper, String.toUpper]
    apply String.toList_injective
    simp only [String.toList_map, String.toList_ofList, h]
  have hkeyword : Keyword.ofText? (String.ofList w) = Keyword.ofText? (String.ofList w') := by
    rw [Keyword.ofText?, Keyword.ofText?, hupper]
  rw [ofWord, ofWord, hkeyword]
  split
  · rfl
  · rw [sense, sense]
    simp only [String.toList_ofList, List.map_take, h]

/-- Names with the same first letter stand for the same. -/
theorem sense_ofWord_of_head? {w w' : List Char} (hw : Keyword.ofText? (String.ofList w) = none)
    (hw' : Keyword.ofText? (String.ofList w') = none)
    (h : w.head?.map Char.toUpper = w'.head?.map Char.toUpper) :
  (ofWord w).sense = (ofWord w').sense
  := by
  rw [ofWord, ofWord, hw, hw', sense, sense]
  simp only [String.toList_ofList]
  cases w with
  | nil =>
    cases w' with
    | nil => rfl
    | cons c' cs' => cases h
  | cons c cs =>
    cases w' with
    | nil => cases h
    | cons c' cs' =>
      have hc : c.toUpper = c'.toUpper := Option.some.inj h
      simp only [List.take_succ_cons, List.take_zero, List.map_cons, List.map_nil, hc]

end Token

/-! ### Lines -/

namespace Line

/-- The first line in another spelling: with other blanks between its tokens, with words in
another case, and with other names that have the same first letters. -/
inductive Respelled : List Char → List Char → Prop
  /-- Whatever follows may stay as it is. -/
  | refl (l : List Char) : Respelled l l
  /-- Blanks may be replaced by others, or by none. -/
  | blanks {b b' l l' : List Char} (hb : ∀ c ∈ b, isBlank c = true)
    (hb' : ∀ c ∈ b', isBlank c = true) : Respelled l l' → Respelled (b ++ l) (b' ++ l')
  /-- A word may be written in another case. -/
  | recase {w w' l l' : List Char} (hw : Token.IsWord w l) (hw' : Token.IsWord w' l')
    (h : w.map Char.toUpper = w'.map Char.toUpper) : Respelled l l' → Respelled (w ++ l) (w' ++ l')
  /-- A name may be replaced by one with the same first letter. -/
  | rename {w w' l l' : List Char} (hw : Token.IsWord w l) (hw' : Token.IsWord w' l')
    (hname : Keyword.ofText? (String.ofList w) = none)
    (hname' : Keyword.ofText? (String.ofList w') = none)
    (h : w.head?.map Char.toUpper = w'.head?.map Char.toUpper) :
    Respelled l l' → Respelled (w ++ l) (w' ++ l')
  /-- Any token may stay as it is if it is still read as a whole. -/
  | token {w l l' : List Char} {t : Token} (hne : w ≠ [])
    (h : Token.scan? (w ++ l) = some (t, w.length))
    (h' : Token.scan? (w ++ l') = some (t, w.length)) : Respelled l l' → Respelled (w ++ l) (w ++ l')

theorem lex_blanks {b : List Char} (hb : ∀ c ∈ b, isBlank c = true) (l : List Char) :
  lex (b ++ l) = lex l
  := by
  induction b with
  | nil => rfl
  | cons c b ih =>
    rw [List.forall_mem_cons] at hb
    rw [List.cons_append, lex_cons_of_isBlank hb.1, ih hb.2]

/-- A token that is read as a whole is the first one of its line. -/
theorem lex_append {w l : List Char} {t : Token} (hne : w ≠ [])
    (h : Token.scan? (w ++ l) = some (t, w.length)) :
  lex (w ++ l) = (lex l).cons t
  := by
  cases w with
  | nil => contradiction
  | cons c w =>
    have hc : isBlank c = false := by
      by_contra hblank
      simp only [isBlank, Bool.not_eq_false, Bool.or_eq_true, decide_eq_true_eq] at hblank
      rcases hblank with rfl | rfl
      all_goals cases h
    rw [List.cons_append] at h ⊢
    rw [lex_cons hc, h, List.length_cons, lexFrom, List.drop_succ_cons, List.drop_left]

theorem sense_lex_append {w w' l l' : List Char} {t t' : Token} (hne : w ≠ []) (hne' : w' ≠ [])
    (h : Token.scan? (w ++ l) = some (t, w.length))
    (h' : Token.scan? (w' ++ l') = some (t', w'.length)) (ht : t.sense = t'.sense)
    (hl : (lex l).sense = (lex l').sense) :
  (lex (w ++ l)).sense = (lex (w' ++ l')).sense
  := by
  rw [lex_append hne h, lex_append hne' h', Lexed.sense_cons, Lexed.sense_cons, ht, hl]

/-- A line makes the same sense in another spelling. -/
theorem Respelled.sense_eq {l l' : List Char} (h : Respelled l l') :
  (lex l).sense = (lex l').sense
  := by
  induction h with
  | refl l => rfl
  | blanks hb hb' _ ih => rw [lex_blanks hb, lex_blanks hb', ih]
  | recase hw hw' h _ ih =>
    apply sense_lex_append hw.ne_nil hw'.ne_nil (Token.scan?_of_isWord hw)
      (Token.scan?_of_isWord hw') (Token.sense_ofWord_of_toUpper h) ih
  | rename hw hw' hname hname' h _ ih =>
    apply sense_lex_append hw.ne_nil hw'.ne_nil (Token.scan?_of_isWord hw)
      (Token.scan?_of_isWord hw') (Token.sense_ofWord_of_head? hname hname' h) ih
  | token hne h h' _ ih => apply sense_lex_append hne hne h h' rfl ih

/-- Lines in other spellings and with other terminators between them make the same sense. -/
theorem senses_intercalate (e e' : Terminator) {ls ls' : List (List Char)} (hne : ls ≠ [])
    (hls : ∀ l ∈ ls, ∀ c ∈ l, isEnd c = false) (hls' : ∀ l ∈ ls', ∀ c ∈ l, isEnd c = false)
    (h : List.Forall₂ Respelled ls ls') :
  senses (e.chars.intercalate ls) = senses (e'.chars.intercalate ls')
  := by
  have hne' : ls' ≠ [] := by
    rintro rfl
    cases h
    contradiction
  rw [senses, senses, split_intercalate e hne hls, split_intercalate e' hne' hls']
  clear hne hne' hls hls'
  induction h with
  | nil => rfl
  | cons hl _ ih => rw [List.map_cons, List.map_cons, hl.sense_eq, ih]

end Line

end LineBasic
