import LineBasic.Proofs.Token.Extent

/-!
# The heads of tokens

The first character of a text tells whether a token can be read there at all.  A character with
which no token starts reads as the end of the program, and only a quote may start what cannot be
read: a quoted text that is not closed in its line.
-/

namespace LineBasic.Token

/-- A character with which a token starts. -/
def isHead (c : Char) : Bool :=
  Line.isEnd c || (Delimiter.ofChar? c).isSome || c.isAlpha || c.isDigit || c = '"'

/-- The next quote, if it comes before the next terminator, is the one up to which a quoted text
runs. -/
private theorem head?_dropWhile_isQuotable (cs : List Char) :
  (cs.dropWhile isQuotable).head? = some '"' ↔ '"' ∈ cs.takeWhile fun c => !Line.isEnd c
  := by
  induction cs with
  | nil => simp
  | cons c cs ih =>
    cases hend : Line.isEnd c with
    | true =>
      have hquote : c ≠ '"' := by
        rintro rfl
        contradiction
      simp [isQuotable, hend, hquote]
    | false =>
      by_cases hquote : c = '"'
      · subst hquote
        simp [isQuotable, hend]
      · simp [isQuotable, hend, hquote, Ne.symm hquote, ih]

/-- A quoted text is not closed if there is no other quote in its line. -/
theorem closed?_eq_none_iff {cs : List Char} :
  closed? cs = none ↔ '"' ∉ cs.takeWhile fun c => !Line.isEnd c
  := by
  rw [closed?_eq, ← head?_dropWhile_isQuotable]
  split
  · next h => simp [h]
  · next h => simp [h]

/-- A text can be read unless it starts with a quoted text that is not closed. -/
theorem scan?_eq_none_iff {cs : List Char} :
  scan? cs = none ↔ ∃ r, cs = '"' :: r ∧ '"' ∉ r.takeWhile fun c => !Line.isEnd c
  := by
  constructor
  · intro h
    cases cs with
    | nil => contradiction
    | cons c r =>
      simp only [scan?] at h
      split at h
      · contradiction
      · split at h
        · contradiction
        · split at h
          · contradiction
          · split at h
            · contradiction
            · split at h
              · next hq =>
                use r
                rw [hq]
                exact ⟨rfl, closed?_eq_none_iff.mp (Option.map_eq_none_iff.mp h)⟩
              · contradiction
  · rintro ⟨r, rfl, h⟩
    rw [← closed?_eq_none_iff] at h
    simp [scan?, h, Line.isEnd, Delimiter.longest?, Delimiter.ofChar?]

/-- A character with which no token starts reads as the end of the program. -/
theorem scan?_of_not_isHead {c : Char} (h : isHead c = false) (cs : List Char) :
  scan? (c :: cs) = some (endOfProgram, 0)
  := by
  simp only [isHead, Bool.or_eq_false_iff, decide_eq_false_iff_not, Option.isSome_eq_false_iff,
    Option.isNone_iff_eq_none] at h
  obtain ⟨⟨⟨⟨hend, hdelimiter⟩, halpha⟩, hdigit⟩, hquote⟩ := h
  rw [← @Delimiter.longest?_eq_none_iff c cs] at hdelimiter
  simp [scan?, hend, hdelimiter, halpha, hdigit, hquote]

/-- The end of the program is read at the end of the text, or at a character with which no token
starts. -/
theorem Scanned.isHead_of_endOfProgram {c : Char} {cs : List Char} {n : Nat}
    (h : Scanned (c :: cs) .endOfProgram n) :
  isHead c = false
  := by
  generalize ht : Token.endOfProgram = t at h
  cases h with
  | endOfProgram hend hdelimiter halpha hdigit hquote =>
    rw [Delimiter.longest?_eq_none_iff] at hdelimiter
    simp [isHead, hend, hdelimiter, halpha, hdigit, hquote]
  | @word c cs =>
    have hend := isEnd_ofWord (unbroken (c :: cs))
    rw [← ht] at hend
    contradiction
  | endOfLine | delimiter | number | quoted => contradiction

end LineBasic.Token
