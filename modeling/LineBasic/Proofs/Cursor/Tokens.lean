import LineBasic.Proofs.Cursor.Boundary
import LineBasic.Proofs.Line.Tokens
import LineBasic.Text.Space

/-!
# Tokens of lines

Whatever leads to a cursor that is at a boundary, the token that is read there is one of the
tokens of a line, as long as it does not end the line.  What no line of a source has is therefore
never read.
-/

namespace LineBasic

namespace Line

variable {cs l : List Char} {ls : List (List Char)} {b n : Nat} {t : Token}

/-! ### Lines from a start on -/

/-- Blanks in front of a text are blanks in front of its first line. -/
theorem split_dropWhile (h : split cs = l :: ls) :
  split (cs.dropWhile isBlank) = l.dropWhile isBlank :: ls
  := by
  induction cs generalizing l with
  | nil =>
    cases h
    rfl
  | cons c cs ih =>
    by_cases hc : isBlank c
    · obtain ⟨l', ls', h'⟩ := exists_split cs
      rw [split_of_not_isEnd (isEnd_of_isBlank hc), h'] at h
      cases h
      rw [List.dropWhile_cons_of_pos hc, List.dropWhile_cons_of_pos hc, ih h']
    · rw [List.dropWhile_cons_of_neg hc, h]
      cases l with
      | nil => rfl
      | cons d l =>
        obtain ⟨r, heq, -, -⟩ := exists_over h
        cases heq
        rw [List.dropWhile_cons_of_neg hc]

/-- The lines from where one starts, after the first one, are the last lines of a text. -/
theorem split_drop_suffix (h : Start cs (n + 1)) :
  split (cs.drop (n + 1)) <:+ (split cs).tail
  := by
  have hsuffix : ∀ {ds : List Char} {k : Nat}, split (ds.drop (k + 1)) <:+ (split ds).tail →
      split (ds.drop (k + 1)) <:+ split ds :=
    fun hk => hk.trans (List.tail_suffix _)
  rw [start_succ_iff] at h
  induction cs using split.induct generalizing n with
  | case1 =>
    rcases h with h | ⟨h, -⟩
    all_goals cases h
  | case2 cs ih =>
    cases n with
    | zero =>
      rcases h with h | ⟨-, h⟩
      · cases h
      · exact absurd rfl h
    | succ n =>
      cases n with
      | zero => apply List.suffix_refl
      | succ n => exact hsuffix (ih h)
  | case3 c cs hcr hc ih =>
    rw [split.eq_3 _ _ hcr, if_pos hc]
    cases n with
    | zero => apply List.suffix_refl
    | succ n => exact hsuffix (ih h)
  | case4 c cs hcr hc ih =>
    rw [split.eq_3 _ _ hcr, if_neg hc, List.tail_modifyHead]
    cases n with
    | zero =>
      rcases h with h | ⟨h, -⟩
      all_goals
        cases h
        exact absurd rfl hc
    | succ n => exact ih h

/-- The line that starts at an offset is one of the lines of the text. -/
theorem exists_line_of_start (h : Start cs b) :
  ∃ l ls, split (cs.drop b) = l :: ls ∧ l ∈ split cs
  := by
  obtain ⟨l, ls, hl⟩ := exists_split (cs.drop b)
  refine ⟨l, ls, hl, ?_⟩
  have hmem : l ∈ split (cs.drop b) := by
    rw [hl]
    apply List.mem_cons_self
  cases b with
  | zero => exact hmem
  | succ n => exact (split_drop_suffix h).trans (List.tail_suffix _) |>.mem hmem

/-! ### Tokens from a start on -/

/-- The token at the head of a text is the first one of its first line, and those after it are
the others. -/
theorem exists_tokens_of_scan? (h : split cs = l :: ls)
    (hscan : Token.scan? (cs.dropWhile isBlank) = some (t, n)) (ht : t.isEnd = false) :
  ∃ l', (lex l).tokens = t :: (lex l').tokens ∧
    split ((cs.dropWhile isBlank).drop n) = l' :: ls
  := by
  have hdrop := split_dropWhile h
  obtain ⟨r, hcs, hend, hr⟩ := exists_over hdrop
  have hpos := (Token.scanned_of_scan? hscan).length_pos (by
    rintro rfl
    contradiction)
  have hlex := lex_dropWhile l
  have hhead : ∀ c ∈ (l.dropWhile isBlank).head?, isBlank c = false :=
    fun _ => not_of_mem_head?_dropWhile l
  generalize l.dropWhile isBlank = l₁ at hcs hend hlex hdrop hhead
  cases l₁ with
  | nil =>
    -- The line is empty up to blanks, so that the token ends it.
    rw [hcs, List.nil_append] at hscan
    cases hr with
    | last =>
      cases hscan
      cases ht
    | more hc =>
      rw [Token.scan?, if_pos hc] at hscan
      cases hscan
      cases ht
  | cons c l₁ =>
    rw [hcs, Token.scan?_append (hend c List.mem_cons_self) hr] at hscan
    have hle := (Token.scanned_of_scan? hscan).length_le
    refine ⟨(c :: l₁).drop n, ?_, split_drop hdrop hle⟩
    obtain ⟨k, rfl⟩ := Nat.exists_eq_succ_of_ne_zero (Nat.ne_of_gt hpos)
    rw [← hlex, lex_cons (hhead c rfl), hscan, lexFrom]
    rfl

end Line

namespace Cursor

variable {s : Source} {c c' : Cursor} {t : Token} {ts : List Token} {l : List Char}
  {ls : List (List Char)}

/-- Tokens that are read in a line are its first ones. -/
theorem Reads.exists_tokens (h : Reads c ts c') (hts : ∀ t ∈ ts, t.isEnd = false)
    (hl : Line.split c.rest = l :: ls) :
  ∃ l', (Line.lex l).tokens = ts ++ (Line.lex l').tokens
  := by
  induction h generalizing l with
  | nil c => exact ⟨l, rfl⟩
  | cons hnext _ ih =>
    rw [List.forall_mem_cons] at hts
    obtain ⟨n, hscan, rfl⟩ := next_eq_ok_iff.mp hnext
    rw [rest_skipBlanks] at hscan
    obtain ⟨l₁, htokens, hl₁⟩ := Line.exists_tokens_of_scan? hl hscan hts.1
    rw [← rest_skipBlanks, ← rest_pass] at hl₁
    obtain ⟨l', hrest⟩ := ih hts.2 hl₁
    use l'
    rw [htokens, hrest]
    rfl

/-- A token that is reached in a source is one of a line of it. -/
theorem exists_line_of_reached {b : Nat} (h : s.Reached b ts c) (ht : t ∈ ts) :
  ∃ l ∈ Line.split s.chars, t ∈ (Line.lex l).tokens
  := by
  obtain ⟨l, ls, hl, hmem⟩ := Line.exists_line_of_start h.start
  have hrest : (s.cursor b).rest = s.chars.drop b := rest_eq _
  rw [← hrest] at hl
  obtain ⟨l', htokens⟩ := h.reads.exists_tokens h.isEnd_eq hl
  refine ⟨l, hmem, ?_⟩
  rw [htokens]
  apply List.mem_append_left _ ht

/-- A token that is read from a boundary is one of a line of the source, unless it ends the line or
the program. -/
theorem Settled.exists_line (h : Settled s c) (hnext : Cursor.next c = .ok t c')
    (ht : t.isEnd = false) :
  ∃ l ∈ Line.split s.chars, t ∈ (Line.lex l).tokens
  := by
  obtain ⟨b, ts, hreached⟩ := h.exists_reached hnext ht
  apply exists_line_of_reached hreached
  apply List.mem_append_right _ (List.mem_singleton_self t)

end Cursor

end LineBasic
