import LineBasic.Memory
import LineBasic.Proofs.Line.Split
import LineBasic.Proofs.Token.Extent
import Mathlib.Tactic.ByContra

/-!
# The tokens of a line

A line is read token by token until it ends, or until no token can be read.  Two lines are
alike when they are read as the same tokens and when the reading stops for the same reason;
names count as the same when they are those of one variable.  What can be read at the head of
a text depends on nothing but the tokens of its lines.
-/

namespace LineBasic

/-! ### Reading a line -/

/-- Why the reading of a line stops. -/
inductive Line.Stop where
  /-- The line ends. -/
  | atEnd
  /-- A character follows with which no token starts. -/
  | undefined
  /-- A quoted text follows that is not closed. -/
  | unclosed
  deriving DecidableEq, Repr

/-- The tokens of a line, and why there are no more of them. -/
structure Line.Lexed where
  tokens : List Token
  stop : Line.Stop
  deriving DecidableEq, Repr

namespace Line

/-- The line with one more token in front. -/
def Lexed.cons (t : Token) (x : Lexed) : Lexed :=
  ⟨t :: x.tokens, x.stop⟩

/-- The line after its next `n` characters, read token by token. -/
def lexAfter : (n : Nat) → List Char → Lexed
  | _, [] => ⟨[], .atEnd⟩
  | n + 1, _ :: cs => lexAfter n cs
  | 0, c :: cs =>
    if isBlank c then
      lexAfter 0 cs
    else
      match Token.scan? (c :: cs) with
      | none => ⟨[], .unclosed⟩
      | some (_, 0) => ⟨[], .undefined⟩
      | some (t, n + 1) => (lexAfter n cs).cons t

/-- A line read token by token. -/
def lex (l : List Char) : Lexed :=
  lexAfter 0 l

theorem lexAfter_eq (n : Nat) (l : List Char) :
  lexAfter n l = lex (l.drop n)
  := by
  induction l generalizing n with
  | nil =>
    rw [List.drop_nil, lex, lexAfter, lexAfter]
  | cons c l ih =>
    cases n with
    | zero => rfl
    | succ n => rw [lexAfter, ih, List.drop_succ_cons]

theorem lex_cons_of_isBlank {c : Char} (hc : isBlank c = true) (l : List Char) :
  lex (c :: l) = lex l
  := if_pos hc

/-- Blanks in front of a line stand for nothing. -/
theorem lex_dropWhile (l : List Char) :
  lex (l.dropWhile isBlank) = lex l
  := by
  induction l with
  | nil => rfl
  | cons c l ih =>
    by_cases hc : isBlank c
    · rw [List.dropWhile_cons_of_pos hc, ih, lex_cons_of_isBlank hc]
    · rw [List.dropWhile_cons_of_neg hc]

/-- How the reading of a text goes on when its first token has been scanned. -/
def lexFrom (l : List Char) : Option (Token × Nat) → Lexed
  | none => ⟨[], .unclosed⟩
  | some (_, 0) => ⟨[], .undefined⟩
  | some (t, n + 1) => (lex (l.drop (n + 1))).cons t

/-- A line that starts with no blank starts with a token, or its reading stops. -/
theorem lex_cons {c : Char} {l : List Char} (hc : isBlank c = false) :
  lex (c :: l) = lexFrom (c :: l) (Token.scan? (c :: l))
  := by
  rw [lex, lexAfter, hc, if_neg Bool.false_ne_true]
  split
  · next h => rw [h, lexFrom]
  · next h => rw [h, lexFrom]
  · next h => rw [h, lexFrom, lexAfter_eq, List.drop_succ_cons]

end Line

/-! ### Tokens of the first line -/

namespace Delimiter

/-- No delimiter is longer than two characters. -/
private theorem longest?_cons_cons (c d : Char) (cs : List Char) :
  longest? (c :: d :: cs) = longest? [c, d]
  := by
  rw [longest?_cons, longest?_cons, List.head?_cons, List.head?_cons]

private theorem longest?_of_isEnd {c d : Char} (cs : List Char) (hd : Line.isEnd d = true) :
  longest? (c :: d :: cs) = longest? [c]
  := by
  have hgreater : d ≠ '>' := by
    rintro rfl
    contradiction
  have hequal : d ≠ '=' := by
    rintro rfl
    contradiction
  simp [longest?_cons, hgreater, hequal]

/-- No delimiter runs across the end of a line. -/
theorem longest?_append {c : Char} {l r : List Char} {ls : List (List Char)}
    (hr : Line.Over r ls) :
  longest? (c :: (l ++ r)) = longest? (c :: l)
  := by
  cases l with
  | nil =>
    cases hr with
    | last => rfl
    | more hd => apply longest?_of_isEnd _ hd
  | cons d l => rw [List.cons_append, longest?_cons_cons, ← longest?_cons_cons c d l]

end Delimiter

namespace Token

/-- A class of characters without terminators is not run across the end of a line. -/
private theorem takeWhile_append {p : Char → Bool} (hp : ∀ c, Line.isEnd c = true → p c = false)
    (l : List Char) {r : List Char} {ls : List (List Char)} (hr : Line.Over r ls) :
  (l ++ r).takeWhile p = l.takeWhile p
  := by
  induction l with
  | nil =>
    cases hr with
    | last => rfl
    | more hc => simp [hp _ hc]
  | cons c l ih =>
    by_cases hc : p c
    · rw [List.cons_append, List.takeWhile_cons_of_pos hc, List.takeWhile_cons_of_pos hc, ih]
    · rw [List.cons_append, List.takeWhile_cons_of_neg hc, List.takeWhile_cons_of_neg hc]

theorem unbroken_append (l : List Char) {r : List Char} {ls : List (List Char)}
    (hr : Line.Over r ls) :
  unbroken (l ++ r) = unbroken l
  := by
  apply takeWhile_append _ l hr
  intro c hc
  simp [isBreak, hc]

/-- The next quote of a line is looked for in the line. -/
private theorem head?_dropWhile_append (l : List Char) {r : List Char} {ls : List (List Char)}
    (hr : Line.Over r ls) :
  ((l ++ r).dropWhile isQuotable).head? = some '"'
    ↔ (l.dropWhile isQuotable).head? = some '"'
  := by
  induction l with
  | nil =>
    cases hr with
    | last => rfl
    | @more c cs hc =>
      have hquote : c ≠ '"' := by
        rintro rfl
        contradiction
      simp [isQuotable, hc, hquote]
  | cons c l ih =>
    by_cases hc : isQuotable c
    · rw [List.cons_append, List.dropWhile_cons_of_pos hc, List.dropWhile_cons_of_pos hc, ih]
    · rw [List.cons_append, List.dropWhile_cons_of_neg hc, List.dropWhile_cons_of_neg hc]
      rfl

theorem closed?_append (l : List Char) {r : List Char} {ls : List (List Char)}
    (hr : Line.Over r ls) :
  closed? (l ++ r) = closed? l
  := by
  have htake : (l ++ r).takeWhile isQuotable = l.takeWhile isQuotable := by
    apply takeWhile_append _ l hr
    intro c hc
    simp [isQuotable, hc]
  simp only [closed?_eq, htake, head?_dropWhile_append l hr]

/-- No token runs across the end of a line. -/
theorem scan?_append {c : Char} {l r : List Char} {ls : List (List Char)}
    (hc : Line.isEnd c = false) (hr : Line.Over r ls) :
  scan? (c :: l ++ r) = scan? (c :: l)
  := by
  have hword := unbroken_append (c :: l) hr
  rw [List.cons_append] at hword ⊢
  rw [scan?, scan?, hc, Delimiter.longest?_append hr, hword, closed?_append l hr]
  rfl

end Token

/-! ### What a text makes sense as -/

/-- What a token stands for: of a name, nothing counts but its first letter, in either
case. -/
def Token.sense : Token → Token
  | .name s => .name (String.ofList ((s.toList.take 1).map Char.toUpper))
  | t => t

namespace Line

/-- What the tokens of a line stand for, and why there are no more of them. -/
def Lexed.sense (x : Lexed) : Lexed :=
  ⟨x.tokens.map Token.sense, x.stop⟩

theorem Lexed.sense_cons (t : Token) (x : Lexed) :
  (x.cons t).sense = x.sense.cons t.sense
  := rfl

/-- What the lines of a text stand for. -/
def senses (cs : List Char) : List Lexed :=
  (split cs).map fun l => (lex l).sense

theorem senses_of_split {cs l : List Char} {ls : List (List Char)} (h : split cs = l :: ls) :
  senses cs = (lex l).sense :: ls.map fun l => (lex l).sense
  := by
  rw [senses, h, List.map_cons]

/-- There are as many of them as there are lines. -/
theorem length_senses (cs : List Char) :
  (senses cs).length = (split cs).length
  := List.length_map _

theorem senses_dropWhile (cs : List Char) :
  senses (cs.dropWhile isBlank) = senses cs
  := by
  induction cs with
  | nil => rfl
  | cons c cs ih =>
    by_cases hc : isBlank c
    · have hend : isEnd c = false := by
        simp only [isBlank, Bool.or_eq_true, decide_eq_true_eq] at hc
        rcases hc with rfl | rfl
        all_goals rfl
      obtain ⟨l, ls, h⟩ := exists_split cs
      have hcons : split (c :: cs) = (c :: l) :: ls := by
        rw [split_of_not_isEnd hend, h, List.modifyHead_cons]
      rw [List.dropWhile_cons_of_pos hc, ih, senses_of_split h, senses_of_split hcons,
        lex_cons_of_isBlank hc]
    · rw [List.dropWhile_cons_of_neg hc]

/-- A line that starts with something makes another sense than an empty one. -/
theorem sense_lex_cons_ne {c : Char} {l : List Char} (hc : isBlank c = false) :
  (lex (c :: l)).sense ≠ (lex []).sense
  := by
  rw [lex_cons hc]
  match Token.scan? (c :: l) with
  | none | some (t, 0) | some (t, n + 1) => rintro ⟨⟩

/-- Tokens with their lengths at the heads of two texts, which stand for the same and after
which the texts make the same sense. -/
structure SameScan (cs cs' : List Char) (x x' : Token × Nat) : Prop where
  token : x.1.sense = x'.1.sense
  rest : senses (cs.drop x.2) = senses (cs'.drop x'.2)

/-- A token that takes up no character is the end of the program. -/
private theorem eq_endOfProgram_of_scan? {cs : List Char} {t : Token}
    (h : Token.scan? cs = some (t, 0)) :
  t = .endOfProgram
  := by
  by_contra ht
  have hpos := (Token.scanned_of_scan? h).length_pos ht
  contradiction

/-- Texts of the same sense whose first lines start with something start with the same
token. -/
private theorem sameScan_of_split {cs cs' l l' : List Char} {c c' : Char}
    {ls ls' : List (List Char)} (hsense : senses cs = senses cs')
    (hc : isBlank c = false) (hc' : isBlank c' = false) (h : split cs = (c :: l) :: ls)
    (h' : split cs' = (c' :: l') :: ls') :
  Option.Rel (SameScan cs cs') (Token.scan? (c :: l)) (Token.scan? (c' :: l'))
  := by
  have hparts := hsense
  rw [senses_of_split h, senses_of_split h', List.cons.injEq, lex_cons hc, lex_cons hc'] at hparts
  obtain ⟨hl, hls⟩ := hparts
  match hs : Token.scan? (c :: l), hs' : Token.scan? (c' :: l') with
  | none, none => apply Option.Rel.none
  | none, some (t', 0) | none, some (t', n' + 1) | some (t, 0), none
  | some (t, 0), some (t', n' + 1) | some (t, n + 1), none | some (t, n + 1), some (t', 0) =>
    rw [hs, hs'] at hl
    cases hl
  | some (t, 0), some (t', 0) =>
    apply Option.Rel.some
    rw [eq_endOfProgram_of_scan? hs, eq_endOfProgram_of_scan? hs']
    exact ⟨rfl, hsense⟩
  | some (t, n + 1), some (t', n' + 1) =>
    rw [hs, hs', lexFrom, lexFrom, Lexed.sense, Lexed.sense, Lexed.mk.injEq] at hl
    obtain ⟨htokens, hstop⟩ := hl
    rw [Lexed.cons, Lexed.cons, List.map_cons, List.map_cons, List.cons.injEq] at htokens
    have hn := (Token.scanned_of_scan? hs).length_le
    have hn' := (Token.scanned_of_scan? hs').length_le
    have hrest : (lex ((c :: l).drop (n + 1))).sense = (lex ((c' :: l').drop (n' + 1))).sense := by
      rw [Lexed.sense, Lexed.sense, htokens.2]
      congr 1
    apply Option.Rel.some
    constructor
    · apply htokens.1
    · rw [senses_of_split (split_drop h hn), senses_of_split (split_drop h' hn'), hrest, hls]

/-- Texts of the same sense that start with no blanks start with the same token, after which
they are of the same sense again, or both with a quoted text that is not closed. -/
theorem sameScan_of_senses {cs cs' : List Char} (h : senses cs = senses cs')
    (hblank : ∀ c ∈ cs.head?, isBlank c = false) (hblank' : ∀ c ∈ cs'.head?, isBlank c = false) :
  Option.Rel (SameScan cs cs') (Token.scan? cs) (Token.scan? cs')
  := by
  obtain ⟨l, ls, hl⟩ := exists_split cs
  obtain ⟨l', ls', hl'⟩ := exists_split cs'
  obtain ⟨r, rfl, hend, hr⟩ := exists_over hl
  obtain ⟨r', rfl, hend', hr'⟩ := exists_over hl'
  have hparts := h
  rw [senses_of_split hl, senses_of_split hl', List.cons.injEq] at hparts
  match l, l' with
  | [], [] =>
    cases hr with
    | last =>
      cases hr' with
      | last =>
        apply Option.Rel.some
        exact ⟨rfl, rfl⟩
      | more hc' => exact absurd (List.map_eq_nil_iff.mp hparts.2.symm) (split_ne_nil _)
    | more hc =>
      cases hr' with
      | last => exact absurd (List.map_eq_nil_iff.mp hparts.2) (split_ne_nil _)
      | more hc' =>
        rw [List.nil_append, List.nil_append, Token.scan?, Token.scan?, if_pos hc, if_pos hc']
        apply Option.Rel.some
        exact ⟨rfl, hparts.2⟩
  | [], c' :: l' =>
    apply absurd hparts.1.symm
    apply sense_lex_cons_ne
    apply hblank' c' rfl
  | c :: l, [] =>
    apply absurd hparts.1
    apply sense_lex_cons_ne
    apply hblank c rfl
  | c :: l, c' :: l' =>
    rw [Token.scan?_append (hend c List.mem_cons_self) hr,
      Token.scan?_append (hend' c' List.mem_cons_self) hr']
    apply sameScan_of_split h (hblank c rfl) (hblank' c' rfl) hl hl'

/-- After their first lines, texts of the same sense are of the same sense. -/
theorem senses_drop_length {cs cs' : List Char} (h : senses cs = senses cs') :
  senses (cs.drop (length cs)) = senses (cs'.drop (length cs'))
  := by
  obtain ⟨l, ls, hl⟩ := exists_split cs
  obtain ⟨l', ls', hl'⟩ := exists_split cs'
  rw [senses_of_split hl, senses_of_split hl', List.cons.injEq] at h
  rw [senses, senses, split_drop_length hl, split_drop_length hl']
  cases ls with
  | nil =>
    rw [List.map_eq_nil_iff.mp h.2.symm]
  | cons k ks =>
    have hne : ls' ≠ [] := by
      rintro rfl
      apply List.cons_ne_nil _ _ h.2
    rw [if_neg (List.cons_ne_nil k ks), if_neg hne, h.2]

/-- Offsets in two texts of the same sense are in lines with the same number if the rest makes
the same sense from there on. -/
theorem breaks_of_senses {cs cs' : List Char} {n n' : Nat} (h : senses cs = senses cs')
    (hrest : senses (cs.drop n) = senses (cs'.drop n')) :
  breaks n cs = breaks n' cs'
  := by
  have hlength := congrArg List.length h
  have hlength' := congrArg List.length hrest
  simp only [length_senses] at hlength hlength'
  have hn := length_split_drop n cs
  have hn' := length_split_drop n' cs'
  omega

end Line

/-- Names that stand for the same are of the same slot. -/
theorem Slot.ofName?_of_sense {s s' : String}
    (h : (Token.name s).sense = (Token.name s').sense) :
  ofName? s = ofName? s'
  := by
  rw [Token.sense, Token.sense, Token.name.injEq] at h
  have hfirst := String.ofList_injective h
  rw [ofName?, ofName?]
  cases hs : s.toList with
  | nil =>
    cases hs' : s'.toList with
    | nil => rfl
    | cons =>
      rw [hs, hs'] at hfirst
      cases hfirst
  | cons c cs =>
    cases hs' : s'.toList with
    | nil =>
      rw [hs, hs'] at hfirst
      cases hfirst
    | cons c' cs' =>
      rw [hs, hs'] at hfirst
      have hupper : c.toUpper = c'.toUpper := (List.cons.inj hfirst).1
      have halpha : c.isAlpha = c'.isAlpha := by
        rw [← isUpper_toUpper, hupper, isUpper_toUpper]
      simp only [hupper, halpha]

end LineBasic
