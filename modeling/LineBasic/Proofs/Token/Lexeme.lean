import LineBasic.Proofs.Line.Spelling
import LineBasic.Proofs.Token.Head

/-!
# The spellings of tokens

A token other than the end of the program is spelled by characters: a delimiter by its own, a
terminator by one of three spellings, a word and a number by characters none of which breaks it, and
a quoted text by quotes around it.  Of the texts with which a text starts, the longest one that
spells a token is read.  There is none where the program ends, and where a quoted text is not closed.
-/

namespace LineBasic

namespace Delimiter

variable {c : Char} {d : Delimiter} {r : List Char}

/-- The characters that delimiters are made of. -/
def marks : List Char :=
  [',', ';', '+', '-', '/', '*', '%', '^', '=', '(', ')', '<', '>']

theorem isSome_ofChar?_iff :
  (ofChar? c).isSome = true ↔ c ∈ marks
  := by
  constructor
  · intro h
    obtain ⟨d, hd⟩ := Option.isSome_iff_exists.mp h
    have hall : ∀ d : Delimiter, ∀ c ∈ d.text.toList, c ∈ marks := by
      intro d
      cases d
      all_goals simp [text, marks]
    apply hall d
    rw [text_of_ofChar? hd]
    apply List.mem_singleton_self
  · have hall : ∀ c ∈ marks, (ofChar? c).isSome = true := by simp [marks, ofChar?]
    apply hall

/-- A delimiter is a character, or one of three pairs. -/
theorem ofChar?_or_pair (d : Delimiter) :
  (∃ c, ofChar? c = some d) ∨ d = .lessEqual ∨ d = .greaterEqual ∨ d = .notEqual
  := by
  cases d with
  | lessEqual => exact .inr (.inl rfl)
  | greaterEqual => exact .inr (.inr (.inl rfl))
  | notEqual => exact .inr (.inr (.inr rfl))
  | comma => exact .inl ⟨',', rfl⟩
  | semicolon => exact .inl ⟨';', rfl⟩
  | plus => exact .inl ⟨'+', rfl⟩
  | minus => exact .inl ⟨'-', rfl⟩
  | divide => exact .inl ⟨'/', rfl⟩
  | multiply => exact .inl ⟨'*', rfl⟩
  | modulus => exact .inl ⟨'%', rfl⟩
  | caret => exact .inl ⟨'^', rfl⟩
  | equal => exact .inl ⟨'=', rfl⟩
  | openParen => exact .inl ⟨'(', rfl⟩
  | closeParen => exact .inl ⟨')', rfl⟩
  | less => exact .inl ⟨'<', rfl⟩
  | greater => exact .inl ⟨'>', rfl⟩

/-- Where a delimiter stands, it or a longer one is read. -/
theorem exists_longest?_append (d : Delimiter) (r : List Char) :
  ∃ d', longest? (d.text.toList ++ r) = some d' ∧ d.text.length ≤ d'.text.length
  := by
  rcases d.ofChar?_or_pair with ⟨c, hc⟩ | rfl | rfl | rfl
  · have hsome : longest? (c :: r) ≠ none := by
      rw [Ne, longest?_eq_none_iff, hc]
      apply Option.some_ne_none
    obtain ⟨d', hd'⟩ := Option.ne_none_iff_exists'.mp hsome
    use d'
    rw [text_of_ofChar? hc, length_text_of_ofChar? hc]
    exact ⟨hd', d'.length_text_pos⟩
  · exact ⟨_, rfl, Nat.le_refl _⟩
  · exact ⟨_, rfl, Nat.le_refl _⟩
  · exact ⟨_, rfl, Nat.le_refl _⟩

/-- A delimiter is read where it stands if it is followed by a blank, or by nothing. -/
theorem longest?_append_of_blank (hr : ∀ c ∈ r.head?, isBlank c = true) :
  longest? (d.text.toList ++ r) = some d
  := by
  rcases d.ofChar?_or_pair with ⟨c, hc⟩ | rfl | rfl | rfl
  · have hpair : ∀ e, isBlank e = false → r.head? ≠ some e := by
      intro e he hhead
      rw [hr e hhead] at he
      contradiction
    rw [text_of_ofChar? hc, List.singleton_append, longest?_cons, if_neg, if_neg, if_neg, hc]
    all_goals
      rintro ⟨-, hhead⟩
      exact hpair _ rfl hhead
  · rfl
  · rfl
  · rfl

end Delimiter

namespace Keyword

/-- A word spells the keyword that it is in capitals. -/
theorem ofText?_eq_some_iff {w : List Char} {k : Keyword} :
  ofText? (String.ofList w) = some k ↔ w.map Char.toUpper = k.text.toList
  := by
  have hupper : (String.ofList w).toUpper = String.ofList (w.map Char.toUpper) := by
    apply String.toList_injective
    rw [String.toUpper, String.toList_map, String.toList_ofList, String.toList_ofList]
  rw [ofText?, hupper]
  constructor
  · intro h
    have hk := List.find?_some h
    rw [decide_eq_true_eq] at hk
    rw [hk, String.toList_ofList]
  · intro h
    rw [h, String.ofList_toList]
    cases k
    all_goals decide

/-- The characters of a keyword are letters. -/
theorem isAlpha_of_map_toUpper {w : List Char} {k : Keyword}
    (h : w.map Char.toUpper = k.text.toList) {c : Char} (hc : c ∈ w) :
  c.isAlpha = true
  := by
  have hall : ∀ c ∈ k.text.toList, c.isUpper = true := by
    cases k
    all_goals simp [text]
  rw [← Slot.isUpper_toUpper]
  apply hall
  rw [← h]
  apply List.mem_map_of_mem hc

end Keyword

namespace Token

variable {w w' r cs : List Char} {t t' : Token} {n : Nat} {c : Char}

/-! ### Spellings -/

/-- A blank, a character of a terminator, or one that delimiters are made of. -/
def Breaks (c : Char) : Prop :=
  isBlank c = true ∨ Line.isEnd c = true ∨ c ∈ Delimiter.marks

instance (c : Char) : Decidable (Breaks c) :=
  inferInstanceAs (Decidable (_ ∨ _ ∨ _))

theorem isBreak_iff :
  isBreak c = true ↔ Breaks c
  := by
  rw [isBreak, Bool.or_eq_true, Bool.or_eq_true, Delimiter.isSome_ofChar?_iff, or_assoc]
  rfl

/-- A digit is no letter. -/
theorem isAlpha_of_isDigit (hc : c.isDigit = true) :
  c.isAlpha = false
  := by
  have hle : c.val.toNat ≤ 57 := (Char.isDigit_iff_toNat.mp hc).2
  rw [← Bool.not_eq_true]
  intro h
  rcases Bool.or_eq_true_iff.mp h with h | h
  · have hge : 65 ≤ c.val.toNat := (of_decide_eq_true h).1
    omega
  · have hge : 97 ≤ c.val.toNat := of_decide_eq_true (Bool.and_eq_true_iff.mp h).1
    omega

/-- No digit breaks a run. -/
theorem not_breaks_of_isDigit (hc : c.isDigit = true) :
  ¬ Breaks c
  := by
  rintro (h | h | h)
  · simp only [isBlank, Bool.or_eq_true, decide_eq_true_eq] at h
    rcases h with rfl | rfl
    all_goals contradiction
  · simp only [Line.isEnd, Bool.or_eq_true, decide_eq_true_eq] at h
    rcases h with rfl | rfl
    all_goals contradiction
  · have hmarks : ∀ c ∈ Delimiter.marks, c.isDigit = false := by simp [Delimiter.marks]
    rw [hmarks c h] at hc
    cases hc

/-- Characters that nothing breaks, of which the first one is of a kind. -/
structure Run (kind : Char → Bool) (w : List Char) : Prop where
  head : ∃ c r, w = c :: r ∧ kind c = true
  unbroken : ∀ c ∈ w, ¬ Breaks c

/-- A run goes on with any character that does not break it. -/
theorem Run.append {kind : Char → Bool} (h : Run kind w) (hc : ¬ Breaks c) :
  Run kind (w ++ [c])
  := by
  obtain ⟨⟨a, r, rfl, ha⟩, hunbroken⟩ := h
  constructor
  · exact ⟨a, r ++ [c], rfl, ha⟩
  · intro d hd
    rcases List.mem_append.mp hd with hd | hd
    · apply hunbroken d hd
    · rw [List.mem_singleton.mp hd]
      apply hc

/-- The characters spell the token. -/
inductive Spells : List Char → Token → Prop
  | endOfLine (e : Line.Terminator) : Spells e.chars .endOfLine
  | delimiter (d : Delimiter) : Spells d.text.toList (.delimiter d)
  /-- A keyword may be written in any case. -/
  | keyword {w : List Char} {k : Keyword} (h : w.map Char.toUpper = k.text.toList) :
    Spells w (.keyword k)
  /-- Any other word is a name. -/
  | name {w : List Char} (hw : Run Char.isAlpha w)
    (h : ∀ k : Keyword, w.map Char.toUpper ≠ k.text.toList) : Spells w (.name (String.ofList w))
  | number {w : List Char} (hw : Run Char.isDigit w) : Spells w (.number (String.ofList w))
  | quoted {w : List Char} (hw : ∀ c ∈ w, c ≠ '"' ∧ Line.isEnd c = false) :
    Spells ('"' :: (w ++ ['"'])) (.quoted (String.ofList w))

theorem isQuotable_iff :
  isQuotable c = true ↔ c ≠ '"' ∧ Line.isEnd c = false
  := by
  simp [isQuotable]

/-- Words and numbers go on as long as nothing breaks them. -/
theorem unbroken_append_of_run {kind : Char → Bool} (hw : Run kind w) (r : List Char) :
  unbroken (w ++ r) = w ++ unbroken r
  := by
  apply List.takeWhile_append_of_pos
  intro c hc
  rw [Bool.not_eq_true', ← Bool.not_eq_true, isBreak_iff]
  apply hw.unbroken c hc

theorem unbroken_of_blank (hr : ∀ c ∈ r.head?, isBlank c = true) :
  unbroken r = []
  := by
  cases r with
  | nil => rfl
  | cons c r =>
    have hc : isBreak c = true := isBreak_iff.mpr (.inl (hr c rfl))
    rw [unbroken, List.takeWhile_cons_of_neg]
    rw [hc]
    exact Bool.false_ne_true

theorem length_le_unbroken_of_run {kind : Char → Bool} (hw : Run kind w) (r : List Char) :
  w.length ≤ (unbroken (w ++ r)).length
  := by
  rw [unbroken_append_of_run hw, List.length_append]
  apply Nat.le_add_right

/-- A blank breaks what goes on as long as nothing breaks it. -/
theorem unbroken_eq_of_run {kind : Char → Bool} (hw : Run kind w)
    (hr : ∀ c ∈ r.head?, isBlank c = true) :
  unbroken (w ++ r) = w
  := by
  rw [unbroken_append_of_run hw, unbroken_of_blank hr, List.append_nil]

/-- The characters up to the first one that breaks them are a run. -/
theorem run_unbroken {kind : Char → Bool} (hc : isBreak c = false) (hkind : kind c = true)
    (cs : List Char) :
  Run kind (unbroken (c :: cs))
  := by
  constructor
  · exact ⟨c, unbroken cs, unbroken_cons cs hc, hkind⟩
  · intro d hd
    have hbreak := List.mem_takeWhile_imp hd
    rw [← isBreak_iff, Bool.not_eq_true, ← Bool.not_eq_true']
    apply hbreak

/-- The characters of a keyword are a run of letters. -/
theorem run_of_keyword {k : Keyword} (h : w.map Char.toUpper = k.text.toList) :
  Run Char.isAlpha w
  := by
  have halpha : ∀ c ∈ w, c.isAlpha = true := fun c => Keyword.isAlpha_of_map_toUpper h
  constructor
  · cases w with
    | nil =>
      cases k
      all_goals cases h
    | cons c r => exact ⟨c, r, rfl, halpha c List.mem_cons_self⟩
  · intro c hc
    rw [← isBreak_iff, isBreak_of_isAlpha (halpha c hc)]
    exact Bool.false_ne_true

/-- A word is spelled by its characters. -/
theorem spells_ofWord (hw : Run Char.isAlpha w) :
  Spells w (ofWord w)
  := by
  rw [ofWord]
  split
  · next h => exact .keyword (Keyword.ofText?_eq_some_iff.mp h)
  · next h =>
    apply Spells.name hw
    intro k hk
    rw [Keyword.ofText?_eq_some_iff.mpr hk] at h
    cases h

theorem ofWord_of_keyword {k : Keyword} (h : w.map Char.toUpper = k.text.toList) :
  ofWord w = .keyword k
  := by
  rw [ofWord, Keyword.ofText?_eq_some_iff.mpr h]

theorem ofWord_of_name (h : ∀ k : Keyword, w.map Char.toUpper ≠ k.text.toList) :
  ofWord w = .name (String.ofList w)
  := by
  rw [ofWord]
  split
  · next k hk => exact absurd (Keyword.ofText?_eq_some_iff.mp hk) (h k)
  · rfl

/-! ### What is scanned is spelled -/

theorem exists_terminator (hc : Line.isEnd c = true) (cs : List Char) :
  ∃ e : Line.Terminator, (c :: cs).take (Line.terminator (c :: cs)) = e.chars
  := by
  rw [Line.terminator_cons, if_pos hc]
  split
  · next hpair =>
    obtain ⟨rfl, hhead⟩ := hpair
    obtain ⟨r, rfl⟩ := List.head?_eq_some_iff.mp hhead
    exact ⟨.both, rfl⟩
  · simp only [Line.isEnd, Bool.or_eq_true, decide_eq_true_eq] at hc
    rcases hc with rfl | rfl
    · exact ⟨.carriageReturn, rfl⟩
    · exact ⟨.lineFeed, rfl⟩

/-- A token that is read is spelled by the characters that are passed. -/
theorem Scanned.spells (h : Scanned cs t n) (ht : t ≠ .endOfProgram) :
  Spells (cs.take n) t
  := by
  have htake : ∀ cs : List Char, cs.take (unbroken cs).length = unbroken cs :=
    fun cs => (List.prefix_iff_eq_take.mp (List.takeWhile_prefix _)).symm
  cases h with
  | nil | endOfProgram => contradiction
  | @endOfLine c cs hc =>
    obtain ⟨e, he⟩ := exists_terminator hc cs
    rw [he]
    apply Spells.endOfLine
  | delimiter _ hd =>
    rw [Delimiter.take_length_text hd]
    apply Spells.delimiter
  | word hc ha =>
    rw [htake]
    apply spells_ofWord (run_unbroken hc ha _)
  | number hc hn =>
    rw [htake]
    apply Spells.number (run_unbroken hc hn _)
  | @quoted cs s hs =>
    obtain ⟨⟨r, rfl⟩, hquotable⟩ := exists_of_closed? hs
    rw [List.take_succ_cons, List.take_length_add_append, List.take_succ_cons, List.take_zero]
    apply Spells.quoted
    intro c hc
    apply isQuotable_iff.mp (hquotable c hc)

/-! ### What is spelled is scanned -/

/-- A letter starts a word that goes on as long as nothing breaks it. -/
theorem scan?_of_isAlpha (hc : c.isAlpha = true) (cs : List Char) :
  scan? (c :: cs) = some (ofWord (unbroken (c :: cs)), (unbroken (c :: cs)).length)
  := by
  have hsplit : unbroken (c :: cs) ++ (c :: cs).dropWhile (fun c => !isBreak c) = c :: cs :=
    List.takeWhile_append_dropWhile
  have hword : IsWord (unbroken (c :: cs)) ((c :: cs).dropWhile fun c => !isBreak c) := by
    constructor
    · rw [hsplit]
    · exact ⟨c, unbroken cs, unbroken_cons cs (isBreak_of_isAlpha hc), hc⟩
  have hscan := scan?_of_isWord hword
  rw [hsplit] at hscan
  apply hscan

/-- A digit starts a number that goes on as long as nothing breaks it. -/
theorem scan?_of_isDigit (hc : c.isDigit = true) (cs : List Char) :
  scan? (c :: cs) =
    some (.number (String.ofList (unbroken (c :: cs))), (unbroken (c :: cs)).length)
  := by
  have hbreaks := not_breaks_of_isDigit hc
  have hend : Line.isEnd c = false := by
    rw [← Bool.not_eq_true]
    exact fun h => hbreaks (.inr (.inl h))
  have hmark : Delimiter.longest? (c :: cs) = none := by
    rw [Delimiter.longest?_eq_none_iff, ← Option.not_isSome_iff_eq_none,
      Delimiter.isSome_ofChar?_iff]
    exact fun h => hbreaks (.inr (.inr h))
  rw [scan?, hend, hmark, isAlpha_of_isDigit hc, hc]
  rfl

/-- A quoted text is read up to the quote that closes it. -/
theorem scan?_of_quotable (hw : ∀ c ∈ w, c ≠ '"' ∧ Line.isEnd c = false) (r : List Char) :
  scan? ('"' :: (w ++ ['"']) ++ r) = some (.quoted (String.ofList w), w.length + 2)
  := by
  have hquotable : ∀ c ∈ w, isQuotable c = true := fun c hc => isQuotable_iff.mpr (hw c hc)
  have hclosed : closed? (w ++ '"' :: r) = some w := by
    rw [closed?_eq, List.dropWhile_append_of_pos hquotable, List.takeWhile_append_of_pos hquotable]
    simp [isQuotable]
  rw [List.cons_append, List.append_assoc, List.singleton_append]
  simp [scan?, hclosed, Line.isEnd, Delimiter.longest?, Delimiter.ofChar?]

theorem scan?_of_isEnd (hc : Line.isEnd c = true) (cs : List Char) :
  scan? (c :: cs) = some (.endOfLine, Line.terminator (c :: cs))
  := by
  rw [scan?, if_pos hc]

theorem scan?_of_longest? {d : Delimiter} (hd : Delimiter.longest? cs = some d) :
  scan? cs = some (.delimiter d, d.text.length)
  := by
  cases cs with
  | nil => contradiction
  | cons c cs =>
    have hc : Line.isEnd c = false := by
      apply Delimiter.isEnd_of_mem_text (d := d)
      rw [← Delimiter.take_length_text hd]
      obtain ⟨n, hn⟩ := Nat.exists_eq_succ_of_ne_zero d.length_text_pos.ne'
      rw [hn, List.take_succ_cons]
      apply List.mem_cons_self
    rw [scan?, hc, hd]
    rfl

/-- Where a token is spelled, what is read is no shorter. -/
theorem Spells.exists_scan? (h : Spells w t) (r : List Char) :
  ∃ u n, scan? (w ++ r) = some (u, n) ∧ w.length ≤ n
  := by
  have hword : ∀ {w : List Char}, Run Char.isAlpha w →
      ∃ u n, scan? (w ++ r) = some (u, n) ∧ w.length ≤ n := by
    intro w hw
    have hle := length_le_unbroken_of_run hw r
    obtain ⟨c, cs, rfl, hc⟩ := hw.head
    exact ⟨_, _, scan?_of_isAlpha hc _, hle⟩
  cases h with
  | endOfLine e =>
    cases e with
    | both => exact ⟨_, _, rfl, Nat.le_refl 2⟩
    | carriageReturn | lineFeed =>
      refine ⟨_, _, scan?_of_isEnd rfl r, ?_⟩
      apply Scanned.length_pos (Scanned.endOfLine rfl)
      nofun
  | delimiter d =>
    obtain ⟨d', hd', hle⟩ := d.exists_longest?_append r
    exact ⟨_, _, scan?_of_longest? hd', hle⟩
  | keyword h => apply hword (run_of_keyword h)
  | name hw => apply hword hw
  | number hw =>
    have hle := length_le_unbroken_of_run hw r
    obtain ⟨c, cs, rfl, hc⟩ := hw.head
    exact ⟨_, _, scan?_of_isDigit hc _, hle⟩
  | quoted hw =>
    refine ⟨_, _, scan?_of_quotable hw r, ?_⟩
    simp

/-- A token is read where it is spelled, if it is followed by a blank or by nothing. -/
theorem Spells.scan?_append (h : Spells w t) (hr : ∀ c ∈ r.head?, isBlank c = true) :
  scan? (w ++ r) = some (t, w.length)
  := by
  have hword : ∀ {w : List Char}, Run Char.isAlpha w →
      scan? (w ++ r) = some (ofWord w, w.length) := by
    intro w hw
    apply scan?_of_isWord ⟨unbroken_eq_of_run hw hr, hw.head⟩
  cases h with
  | endOfLine e =>
    have hlf : e = .carriageReturn → r.head? ≠ some '\n' := by
      rintro - hlf
      cases hr '\n' hlf
    have hlength := e.terminator_append hlf
    rw [← hlength]
    cases e with
    | carriageReturn | lineFeed | both => apply scan?_of_isEnd rfl
  | delimiter d =>
    apply scan?_of_longest? (Delimiter.longest?_append_of_blank hr)
  | keyword h => rw [hword (run_of_keyword h), ofWord_of_keyword h]
  | name hw h => rw [hword hw, ofWord_of_name h]
  | number hw =>
    have hunbroken := unbroken_eq_of_run hw hr
    obtain ⟨c, cs, rfl, hc⟩ := hw.head
    rw [List.cons_append] at hunbroken ⊢
    rw [scan?_of_isDigit hc, hunbroken]
  | quoted hw =>
    rw [scan?_of_quotable hw r]
    simp

/-- No spelling starts with a blank. -/
theorem Spells.head (h : Spells w t) :
  ∃ c r, w = c :: r ∧ isBlank c = false
  := by
  have hrun : ∀ {kind : Char → Bool} {w : List Char}, Run kind w →
      ∃ c r, w = c :: r ∧ isBlank c = false := by
    intro kind w hw
    obtain ⟨c, r, rfl, -⟩ := hw.head
    refine ⟨c, r, rfl, ?_⟩
    rw [← Bool.not_eq_true]
    intro hc
    apply hw.unbroken c List.mem_cons_self (.inl hc)
  cases h with
  | endOfLine e =>
    cases e with
    | carriageReturn | lineFeed | both => exact ⟨_, _, rfl, rfl⟩
  | delimiter d =>
    cases d with
    | _ => exact ⟨_, _, rfl, rfl⟩
  | keyword h => apply hrun (run_of_keyword h)
  | name hw | number hw => apply hrun hw
  | quoted => exact ⟨'"', _, rfl, rfl⟩

/-- No blanks are skipped in front of a spelling. -/
theorem Spells.dropWhile_append (h : Spells w t) (r : List Char) :
  (w ++ r).dropWhile isBlank = w ++ r
  := by
  obtain ⟨c, w, rfl, hc⟩ := h.head
  rw [List.cons_append, List.dropWhile_cons_of_neg]
  rw [hc]
  exact Bool.false_ne_true

/-- Characters spell one token at most. -/
theorem Spells.unique (h : Spells w t) (h' : Spells w t') :
  t = t'
  := by
  have hnil : ∀ c ∈ ([] : List Char).head?, isBlank c = true := nofun
  have hscan := h.scan?_append hnil
  rw [h'.scan?_append hnil] at hscan
  cases hscan
  rfl

/-! ### The longest spelling -/

/-- The characters at the head of a text spell the token, and no more characters there spell any. -/
structure Longest (cs w : List Char) (t : Token) : Prop where
  isPrefix : w <+: cs
  spells : Spells w t
  length_le : ∀ w' t', w' <+: cs → Spells w' t' → w'.length ≤ w.length

/-- What is read is the token with the longest spelling. -/
theorem scan?_eq_some_iff (ht : t ≠ .endOfProgram) :
  scan? cs = some (t, n) ↔ ∃ w, Longest cs w t ∧ n = w.length
  := by
  constructor
  · intro h
    have hscanned := scanned_of_scan? h
    have htake : (cs.take n).length = n := List.length_take_of_le hscanned.length_le
    refine ⟨cs.take n, ⟨List.take_prefix n cs, hscanned.spells ht, ?_⟩, htake.symm⟩
    rintro w' t' ⟨r, rfl⟩ hspells
    obtain ⟨u, m, hscan, hle⟩ := hspells.exists_scan? r
    rw [h] at hscan
    cases hscan
    rw [htake]
    apply hle
  · rintro ⟨w, hlongest, rfl⟩
    obtain ⟨r, rfl⟩ := hlongest.isPrefix
    obtain ⟨u, m, hscan, hle⟩ := hlongest.spells.exists_scan? r
    have hscanned := scanned_of_scan? hscan
    have hu : u ≠ .endOfProgram := by
      rintro rfl
      obtain ⟨c, cs, rfl, -⟩ := hlongest.spells.head
      rw [hscanned.length_eq_zero] at hle
      contradiction
    have hspells := hscanned.spells hu
    have hmax := hlongest.length_le _ u (List.take_prefix m _) hspells
    rw [List.length_take_of_le hscanned.length_le] at hmax
    obtain rfl : m = w.length := Nat.le_antisymm hmax hle
    rw [List.take_left] at hspells
    rw [hscan, hspells.unique hlongest.spells]

/-- A character of a terminator, one that delimiters are made of, a letter, a digit or a quote. -/
def Heads (c : Char) : Prop :=
  Line.isEnd c = true ∨ c ∈ Delimiter.marks ∨ c.isAlpha = true ∨ c.isDigit = true ∨ c = '"'

theorem isHead_iff :
  isHead c = true ↔ Heads c
  := by
  simp only [isHead, Heads, Bool.or_eq_true, Delimiter.isSome_ofChar?_iff, decide_eq_true_eq,
    or_assoc]

/-- The end of the program is read where the text ends, and at a character that is the first one of
no token. -/
theorem scan?_eq_endOfProgram_iff :
  (∃ n, scan? cs = some (.endOfProgram, n)) ↔ ∀ c ∈ cs.head?, ¬ Heads c
  := by
  constructor
  · rintro ⟨n, h⟩
    have hscanned := scanned_of_scan? h
    cases cs with
    | nil => nofun
    | cons c cs =>
      rintro _ ⟨⟩
      rw [← isHead_iff, hscanned.isHead_of_endOfProgram]
      exact Bool.false_ne_true
  · intro h
    use 0
    cases cs with
    | nil => rfl
    | cons c cs =>
      have hc := h c rfl
      rw [← isHead_iff, Bool.not_eq_true] at hc
      apply scan?_of_not_isHead hc

/-- What follows a spelling does not go on with it: no word or number runs up to a character that
does not break it, and no delimiter or terminator is the first half of a longer one. -/
def Ends (w r : List Char) : Token → Prop
  | .name _ | .keyword _ | .number _ => ∀ c ∈ r.head?, Breaks c
  | .delimiter .less => ∀ c ∈ r.head?, c ≠ '>' ∧ c ≠ '='
  | .delimiter .greater => ∀ c ∈ r.head?, c ≠ '='
  | .endOfLine => w = ['\r'] → ∀ c ∈ r.head?, c ≠ '\n'
  | _ => True

/-- The longest spelling ends where it cannot go on. -/
theorem Longest.ends (h : Longest (w ++ r) w t) :
  Ends w r t
  := by
  -- One more character cannot spell a token together with those before it.
  have hmore : ∀ {c : Char} {u : Token}, c ∈ r.head? → ¬ Spells (w ++ [c]) u := by
    intro c u hc hspells
    obtain ⟨r, rfl⟩ := List.head?_eq_some_iff.mp hc
    have hle := h.length_le _ u (by simp) hspells
    rw [List.length_append, List.length_singleton] at hle
    omega
  have hword : Run Char.isAlpha w → ∀ c ∈ r.head?, Breaks c := by
    intro hw c hc
    by_contra hbreak
    apply hmore hc (spells_ofWord (hw.append hbreak))
  have hspells := h.spells
  cases hspells with
  | endOfLine e =>
    rintro hw c hc rfl
    apply hmore hc (u := .endOfLine)
    rw [hw]
    exact .endOfLine .both
  | delimiter d =>
    cases d with
    | less =>
      intro c hc
      constructor
      · rintro rfl
        apply hmore hc (.delimiter .notEqual)
      · rintro rfl
        apply hmore hc (.delimiter .lessEqual)
    | greater =>
      rintro c hc rfl
      apply hmore hc (.delimiter .greaterEqual)
    | _ => trivial
  | keyword hk => apply hword (run_of_keyword hk)
  | name hw => apply hword hw
  | number hw =>
    intro c hc
    by_contra hbreak
    apply hmore hc (.number (hw.append hbreak))
  | quoted => trivial

end Token

end LineBasic
