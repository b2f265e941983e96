import LineBasic.Labels
import LineBasic.Proofs.Cursor.Line
import LineBasic.Proofs.Token.Head
import LineBasic.Proofs.Reading

/-!
# The labels of a source

The lines of a source are visited from the first one on, up to one whose first character starts
no token.  The table that is built holds the labels of the visited lines, each with the offset
that follows it.  There is none if one of these lines starts with a quoted text that is not
closed, or repeats the label of another; the fault is then that of the first such line.
-/

namespace LineBasic

open Program
open Line (Start Joined following)

/-! ### The heads of lines -/

namespace Source

/-- The text from the first character after an offset on that is no blank. -/
def head (s : Source) (b : Nat) : List Char :=
  (s.chars.drop b).dropWhile isBlank

/-- The first character after an offset that is no blank is one with which no token starts. -/
def Undefined (s : Source) (b : Nat) : Prop :=
  ∃ c r, s.head b = c :: r ∧ Token.isHead c = false

/-- A quoted text follows an offset, up to blanks, that is not closed in its line. -/
def Unclosed (s : Source) (b : Nat) : Prop :=
  ∃ r, s.head b = '"' :: r ∧ '"' ∉ r.takeWhile fun c => !Line.isEnd c

/-- The token after the offset `b` is the number that is written as `label`, and ends at the
offset `a`. -/
def Labelled (s : Source) (b : Nat) (label : String) (a : Nat) : Prop :=
  ∃ c, Cursor.next (s.cursor b) = .ok (.number label) c ∧ c.pos = a

/-- The offset of a line such that neither this line nor one before it starts with a character
that starts no token. -/
structure Visited (s : Source) (b : Nat) : Prop where
  start : Start s.chars b
  defined : ∀ b' ≤ b, Start s.chars b' → ¬ s.Undefined b'

/-- The fault of a line among the labels of the source: it starts with a quoted text that is not
closed, or it repeats the label of a line before it. -/
inductive Offends (s : Source) (b : Nat) : Fault → Prop
  | unclosed (h : s.Unclosed b) :
    Offends s b ((Fault.of .missingClosingQuote).inLine ((s.cursor b).lineOf b))
  | repeated {b' a a' : Nat} {label : String} (h : s.Labelled b label a) (hlt : b' < b)
    (hstart : Start s.chars b') (h' : s.Labelled b' label a') :
    Offends s b ((Fault.of .duplicateLabel label).inLine ((s.cursor b).lineOf b))

variable {s : Source} {a a' b b' : Nat} {label : String} {c c' : Cursor} {t : Token} {f : Fault}

/-- Lines before one that is visited are visited. -/
theorem Visited.left (h : s.Visited b) (hle : b' ≤ b) (hstart : Start s.chars b') :
  s.Visited b'
  where
  start := hstart
  defined b'' hle' := h.defined b'' (Nat.le_trans hle' hle)

theorem rest_skipBlanks_cursor (s : Source) (b : Nat) :
  (s.cursor b).skipBlanks.rest = s.head b
  := by
  rw [Cursor.rest_skipBlanks, Cursor.rest_eq]
  rfl

/-- A line that cannot be read starts with a quoted text that is not closed. -/
theorem unclosed_of_next (h : Cursor.next (s.cursor b) = .error f c) :
  s.Unclosed b
  := by
  obtain ⟨hscan, -, -⟩ := Cursor.next_eq_error_iff.mp h
  rw [rest_skipBlanks_cursor] at hscan
  apply Token.scan?_eq_none_iff.mp hscan

/-- A line that can be read does not start with a quoted text that is not closed. -/
theorem not_unclosed_of_next (h : Cursor.next (s.cursor b) = .ok t c) :
  ¬ s.Unclosed b
  := by
  intro hunclosed
  have hnone := Token.scan?_eq_none_iff.mpr hunclosed
  obtain ⟨n, hscan, -⟩ := Cursor.next_eq_ok_iff.mp h
  rw [rest_skipBlanks_cursor, hnone] at hscan
  contradiction

/-- A line that starts with a token does not start with a character that starts none. -/
theorem not_undefined_of_next (h : Cursor.next (s.cursor b) = .ok t c)
    (ht : t ≠ .endOfProgram) :
  ¬ s.Undefined b
  := by
  rintro ⟨x, r, hhead, hx⟩
  obtain ⟨n, hscan, -⟩ := Cursor.next_eq_ok_iff.mp h
  rw [rest_skipBlanks_cursor, hhead, Token.scan?_of_not_isHead hx] at hscan
  cases hscan
  contradiction

theorem not_undefined_of_unclosed (h : s.Unclosed b) :
  ¬ s.Undefined b
  := by
  obtain ⟨r, hr, -⟩ := h
  rintro ⟨x, r', hhead, hx⟩
  rw [hr] at hhead
  cases hhead
  contradiction

/-- Where the program ends no line starts any more, unless a character follows that starts no
token. -/
theorem undefined_of_endOfProgram (h : Cursor.next (s.cursor b) = .ok .endOfProgram c)
    (hstart : Start s.chars b') (hlt : b < b') :
  s.Undefined b
  := by
  obtain ⟨n, hscan, -⟩ := Cursor.next_eq_ok_iff.mp h
  rw [rest_skipBlanks_cursor] at hscan
  have hscanned := Token.scanned_of_scan? hscan
  cases hhead : s.head b with
  | cons x r =>
    rw [hhead] at hscanned
    exact ⟨x, r, hhead, hscanned.isHead_of_endOfProgram⟩
  | nil =>
    -- There is nothing but blanks left, so that no other line can start.
    obtain ⟨k, rfl⟩ := Nat.exists_eq_add_of_lt hlt
    obtain ⟨x, hget, hx, -⟩ := hstart.of_succ
    have hmem : x ∈ s.chars.drop b := by
      apply List.mem_of_getElem? (i := k)
      rw [List.getElem?_drop, hget]
    have hblank := List.dropWhile_eq_nil_iff.mp hhead x hmem
    rw [Line.isEnd_of_isBlank hblank] at hx
    contradiction

/-- A line has one label at most. -/
theorem Labelled.unique {label' : String} (h : s.Labelled b label a)
    (h' : s.Labelled b label' a') :
  label = label' ∧ a = a'
  := by
  obtain ⟨c, hc, rfl⟩ := h
  obtain ⟨c', hc', rfl⟩ := h'
  rw [hc] at hc'
  cases hc'
  exact ⟨rfl, rfl⟩

end Source

/-! ### Tables -/

namespace Labels

variable {s : Source} {t : Labels} {a b : Nat} {label : String}

/-- The table holds the labels of the lines that start before an offset, and none of these lines
is at fault or ends the visit. -/
structure Noted (s : Source) (b : Nat) (t : Labels) : Prop where
  defined : ∀ b' < b, Start s.chars b' → ¬ s.Undefined b'
  closed : ∀ b' < b, Start s.chars b' → ¬ s.Unclosed b'
  get?_eq : ∀ label a,
    t.get? label = some a ↔ ∃ b' < b, Start s.chars b' ∧ s.Labelled b' label a
  unique : ∀ b₁ b₂ label a₁ a₂, b₁ < b → b₂ < b → Start s.chars b₁ → Start s.chars b₂ →
    s.Labelled b₁ label a₁ → s.Labelled b₂ label a₂ → b₁ = b₂

/-- The table holds the labels of all visited lines, and none of these is at fault. -/
structure Complete (s : Source) (t : Labels) : Prop where
  closed : ∀ b, s.Visited b → ¬ s.Unclosed b
  get?_eq : ∀ label a, t.get? label = some a ↔ ∃ b, s.Visited b ∧ s.Labelled b label a
  unique : ∀ b b' label a a', s.Visited b → s.Visited b' → s.Labelled b label a →
    s.Labelled b' label a' → b = b'

/-- The fault is that of the first visited line that has one. -/
def FirstOffence (s : Source) (f : Fault) : Prop :=
  ∃ b, s.Visited b ∧ s.Offends b f ∧ ∀ b' < b, ∀ f', s.Visited b' → ¬ s.Offends b' f'

theorem noted_empty (s : Source) :
  Noted s 0 empty
  where
  defined _ hlt := absurd hlt (Nat.not_lt_zero _)
  closed _ hlt := absurd hlt (Nat.not_lt_zero _)
  get?_eq label a := by
    rw [get?_empty]
    constructor
    · intro h
      contradiction
    · rintro ⟨_, hlt, -⟩
      contradiction
  unique _ _ _ _ _ hlt := absurd hlt (Nat.not_lt_zero _)

/-- The lines that start before the line that follows another one are this line and those
before it. -/
private theorem start_lt_following {b' : Nat} (h' : Start s.chars b')
    (hlt : b' < following s.chars b) :
  b' < b ∨ b' = b
  := by
  apply Nat.lt_or_eq_of_le
  apply Nat.le_of_not_lt
  intro hb
  have hle := h'.following_le hb
  omega

/-- The table of the lines up to one that is not at fault has its label, too, if it has one. -/
theorem Noted.extend {t' : Labels} (h : Noted s b t) (hstart : Start s.chars b)
    (hlt : b < following s.chars b) (hdefined : ¬ s.Undefined b) (hclosed : ¬ s.Unclosed b)
    (hget : ∀ label a, t'.get? label = some a ↔ t.get? label = some a ∨ s.Labelled b label a)
    (hfresh : ∀ label a, s.Labelled b label a → t.get? label = none) :
  Noted s (following s.chars b) t'
  where
  defined b' hb' hstart' := by
    rcases start_lt_following hstart' hb' with hb | rfl
    · apply h.defined b' hb hstart'
    · apply hdefined
  closed b' hb' hstart' := by
    rcases start_lt_following hstart' hb' with hb | rfl
    · apply h.closed b' hb hstart'
    · apply hclosed
  get?_eq label a := by
    rw [hget, h.get?_eq]
    constructor
    · rintro (⟨b', hb', hrest⟩ | hlabel)
      · exact ⟨b', Nat.lt_trans hb' hlt, hrest⟩
      · exact ⟨b, hlt, hstart, hlabel⟩
    · rintro ⟨b', hb', hstart', hlabel⟩
      rcases start_lt_following hstart' hb' with hb | rfl
      · exact .inl ⟨b', hb, hstart', hlabel⟩
      · exact .inr hlabel
  unique b₁ b₂ label a₁ a₂ hb₁ hb₂ hstart₁ hstart₂ h₁ h₂ := by
    have hne : ∀ {b' a' a''}, b' < b → Start s.chars b' → s.Labelled b' label a' →
        ¬ s.Labelled b label a'' := by
      intro b' a' a'' hb' hstart' hlabel' hlabel
      have hsome := (h.get?_eq label a').mpr ⟨b', hb', hstart', hlabel'⟩
      rw [hfresh label a'' hlabel] at hsome
      contradiction
    rcases start_lt_following hstart₁ hb₁ with hb | rfl
    · rcases start_lt_following hstart₂ hb₂ with hb' | rfl
      · apply h.unique b₁ b₂ label a₁ a₂ hb hb' hstart₁ hstart₂ h₁ h₂
      · exact absurd h₂ (hne hb hstart₁ h₁)
    · rcases start_lt_following hstart₂ hb₂ with hb' | rfl
      · exact absurd h₁ (hne hb' hstart₂ h₂)
      · rfl

/-- A line that starts with anything but a number has no label. -/
theorem not_labelled_of_next {u : Token} {c : Cursor}
    (hnext : Cursor.next (s.cursor b) = .ok u c) (hu : ∀ label, u ≠ .number label) (label : String)
    (a : Nat) :
  ¬ s.Labelled b label a
  := by
  rintro ⟨c', hc', -⟩
  rw [hnext] at hc'
  cases hc'
  apply hu label rfl

/-- A line without a label adds nothing to the table. -/
theorem Noted.skip {u : Token} {c : Cursor} (h : Noted s b t) (hstart : Start s.chars b)
    (hlt : b < following s.chars b) (hnext : Cursor.next (s.cursor b) = .ok u c)
    (hend : u ≠ .endOfProgram) (hu : ∀ label, u ≠ .number label) :
  Noted s (following s.chars b) t
  := by
  have hnone := not_labelled_of_next hnext hu
  apply h.extend hstart hlt (Source.not_undefined_of_next hnext hend)
    (Source.not_unclosed_of_next hnext)
  · intro label a
    constructor
    · apply Or.inl
    · rintro (hget | hlabel)
      · apply hget
      · exact absurd hlabel (hnone label a)
  · intro label a hlabel
    exact absurd hlabel (hnone label a)

/-- A new label is added to the table. -/
theorem Noted.insert {c : Cursor} (h : Noted s b t) (hstart : Start s.chars b)
    (hlt : b < following s.chars b) (hnext : Cursor.next (s.cursor b) = .ok (.number label) c)
    (hnew : t.get? label = none) :
  Noted s (following s.chars b) (t.insert label c.pos)
  := by
  have hlabel : s.Labelled b label c.pos := ⟨c, hnext, rfl⟩
  apply h.extend hstart hlt (Source.not_undefined_of_next hnext Token.noConfusion)
    (Source.not_unclosed_of_next hnext)
  · intro label' a
    rw [get?_insert]
    by_cases heq : label = label'
    · subst heq
      rw [if_pos rfl, hnew]
      constructor
      · intro hpos
        cases hpos
        apply Or.inr hlabel
      · rintro (hget | hlabel')
        · contradiction
        · rw [(hlabel.unique hlabel').2]
    · rw [if_neg heq]
      constructor
      · apply Or.inl
      · rintro (hget | hlabel')
        · apply hget
        · exact absurd (hlabel.unique hlabel').1 heq
  · intro label' a hlabel'
    rw [← (hlabel.unique hlabel').1]
    apply hnew

/-! ### The end of the visit -/

/-- The lines that have been noted are visited. -/
theorem Noted.visited {b' : Nat} (h : Noted s b t) (hstart : Start s.chars b') (hlt : b' < b) :
  s.Visited b'
  where
  start := hstart
  defined b'' hle hstart'' := h.defined b'' (Nat.lt_of_le_of_lt hle hlt) hstart''

/-- Where the program ends, all visited lines have been noted. -/
theorem Noted.complete {c : Cursor} (h : Noted s b t)
    (hb : Start s.chars b ∨ b = s.chars.length)
    (hnext : Cursor.next (s.cursor b) = .ok .endOfProgram c) :
  Complete s t
  := by
  have hle : ∀ {b'}, s.Visited b' → b' < b ∨ b' = b := by
    intro b' hb'
    apply Nat.lt_or_eq_of_le
    apply Nat.le_of_not_lt
    intro hlt
    have hundefined := Source.undefined_of_endOfProgram hnext hb'.start hlt
    rcases hb with hstart | hend
    · apply hb'.defined b (Nat.le_of_lt hlt) hstart hundefined
    · have hle' := hb'.start.le_length
      omega
  have hnone : ∀ label a, ¬ s.Labelled b label a := by
    apply not_labelled_of_next hnext
    intro label heq
    contradiction
  constructor
  · intro b' hb'
    rcases hle hb' with hlt | rfl
    · apply h.closed b' hlt hb'.start
    · apply Source.not_unclosed_of_next hnext
  · intro label a
    rw [h.get?_eq]
    constructor
    · rintro ⟨b', hlt, hstart, hlabel⟩
      exact ⟨b', h.visited hstart hlt, hlabel⟩
    · rintro ⟨b', hb', hlabel⟩
      rcases hle hb' with hlt | rfl
      · exact ⟨b', hlt, hb'.start, hlabel⟩
      · exact absurd hlabel (hnone label a)
  · intro b₁ b₂ label a₁ a₂ hb₁ hb₂ h₁ h₂
    rcases hle hb₁ with hlt₁ | rfl
    · rcases hle hb₂ with hlt₂ | rfl
      · apply h.unique b₁ b₂ label a₁ a₂ hlt₁ hlt₂ hb₁.start hb₂.start h₁ h₂
      · exact absurd h₂ (hnone label a₂)
    · exact absurd h₁ (hnone label a₁)

/-- A line that is at fault comes first if all lines before it have been noted. -/
theorem Noted.firstOffence {f : Fault} (h : Noted s b t) (hstart : Start s.chars b)
    (hdefined : ¬ s.Undefined b) (hf : s.Offends b f) :
  FirstOffence s f
  := by
  use b
  refine ⟨⟨hstart, ?_⟩, hf, ?_⟩
  · intro b' hle hstart'
    rcases Nat.lt_or_eq_of_le hle with hlt | rfl
    · apply h.defined b' hlt hstart'
    · apply hdefined
  · intro b' hlt f' hb' hf'
    cases hf' with
    | unclosed hclosed => apply h.closed b' hlt hb'.start hclosed
    | repeated hlabel hlt' hstart' hlabel' =>
      have heq := h.unique _ _ _ _ _ hlt (Nat.lt_trans hlt' hlt) hb'.start hstart' hlabel hlabel'
      omega

/-! ### Visiting one line -/

/-- The visit has come to a cursor with a table: a line starts there, or the text ends, and the
table holds the labels of the lines before. -/
structure Visiting (s : Source) (t : Labels) (c : Cursor) : Prop where
  source_eq : c.source = s
  place : Start s.chars c.pos ∨ c.pos = s.chars.length
  noted : Noted s c.pos t

section Visiting

variable {c c' d : Cursor} {u : Token} {f : Fault} {t' : Labels}

theorem Visiting.within (h : Visiting s t c) :
  c.Within
  := by
  rw [Cursor.Within, h.source_eq]
  rcases h.place with hstart | hend
  · apply hstart.le_length
  · apply hend.le

/-- At the end of the text the program ends. -/
private theorem next_of_length_le (h : c.source.chars.length ≤ c.pos) :
  ∃ c', Cursor.next c = .ok .endOfProgram c'
  := by
  have hrest : c.skipBlanks.rest = [] := by
    rw [Cursor.rest_skipBlanks, Cursor.rest_eq, List.drop_eq_nil_of_le h]
    rfl
  use c.skipBlanks.pass 0
  apply Cursor.next_eq_ok_iff.mpr
  rw [hrest]
  exact ⟨0, rfl, rfl⟩

/-- Unless the program ends, a line starts, and the next one follows later. -/
theorem Visiting.start (h : Visiting s t c) (hnext : ∀ c', Cursor.next c ≠ .ok .endOfProgram c') :
  Start s.chars c.pos ∧ c.pos < following s.chars c.pos
  := by
  have hlt : c.pos < s.chars.length := by
    apply Nat.lt_of_not_le
    intro hle
    obtain ⟨c', hend⟩ := next_of_length_le (h.source_eq ▸ hle)
    apply hnext c' hend
  exact ⟨h.place.resolve_right (Nat.ne_of_lt hlt), Line.lt_following hlt⟩

theorem Visiting.start_of_next (h : Visiting s t c) (hnext : Cursor.next c = .ok u c')
    (hu : u ≠ .endOfProgram) :
  Start s.chars c.pos ∧ c.pos < following s.chars c.pos
  := by
  apply h.start
  intro c'' hnext'
  rw [hnext] at hnext'
  cases hnext'
  contradiction

/-- The head of the line is read in the same way wherever the cursor has come from. -/
theorem Visiting.next_cursor (h : Visiting s t c) :
  Cursor.next (s.cursor c.pos) = Cursor.next c
  := Cursor.next_cursor h.source_eq

/-- A fault at a cursor in the line names this line. -/
private theorem inLine_lineOf (hs : c.source = s) (f : Fault) (hj : Joined s.chars b c.pos) :
  f.inLine (c.lineOf c.pos) = f.inLine ((s.cursor b).lineOf b)
  := by
  rw [Cursor.lineOf, Cursor.lineOf, hs, hj.breaks_eq]
  rfl

/-- A line that cannot be read is the first one at fault. -/
theorem Visiting.firstOffence_of_error (h : Visiting s t c) (hnext : Cursor.next c = .error f c') :
  FirstOffence s (f.inLine (c'.lineOf c'.pos))
  := by
  have hstart := (h.start fun c'' hok => by
    rw [hnext] at hok
    cases hok).1
  have hunclosed := Source.unclosed_of_next (h.next_cursor.trans hnext)
  have hsource := h.source_eq
  obtain ⟨-, rfl, rfl⟩ := Cursor.next_eq_error_iff.mp hnext
  have hj := Cursor.joined_skipBlanks c
  rw [hsource] at hj
  rw [inLine_lineOf (c := c.skipBlanks) hsource _ hj]
  apply h.noted.firstOffence hstart (Source.not_undefined_of_unclosed hunclosed)
  apply Source.Offends.unclosed hunclosed

/-- A line whose label is in the table is the first one at fault. -/
theorem Visiting.firstOffence_of_number (h : Visiting s t c)
    (hnext : Cursor.next c = .ok (.number label) c') (hsome : (t.get? label).isSome) :
  FirstOffence s ((Fault.of .duplicateLabel label).inLine (c'.lineOf c'.pos))
  := by
  have hcursor := h.next_cursor.trans hnext
  have hsource := (Cursor.keeps_ahead_next.of_ok hnext).source_eq.trans h.source_eq
  have hj := Cursor.joined_of_next hnext Token.noConfusion
  obtain ⟨hstart, -⟩ := h.start_of_next hnext Token.noConfusion
  obtain ⟨a, ha⟩ := Option.isSome_iff_exists.mp hsome
  obtain ⟨b', hb', hstart', hlabel'⟩ := (h.noted.get?_eq label a).mp ha
  rw [h.source_eq] at hj
  rw [inLine_lineOf hsource _ hj]
  apply h.noted.firstOffence hstart (Source.not_undefined_of_next hcursor Token.noConfusion)
  apply Source.Offends.repeated ⟨c', hcursor, rfl⟩ hb' hstart' hlabel'

/-- The visit comes to the line that follows with a table that holds the labels up to it. -/
theorem Visiting.following (h : Visiting s t c) (hs : d.source = c.source)
    (hpos : d.pos = following s.chars c.pos) (hnoted : Noted s (following s.chars c.pos) t') :
  Visiting s t' d
  where
  source_eq := hs.trans h.source_eq
  place := by
    have hwithin := h.within
    rw [Cursor.Within, h.source_eq] at hwithin
    rw [hpos]
    apply Line.start_following hwithin
  noted := by
    rw [hpos]
    apply hnoted

/-- After a blank line the visit comes to the next one. -/
theorem Visiting.endOfLine (h : Visiting s t c) (hnext : Cursor.next c = .ok .endOfLine c') :
  Visiting s t c'
  := by
  obtain ⟨hstart, hlt⟩ := h.start_of_next hnext Token.noConfusion
  apply h.following (Cursor.keeps_ahead_next.of_ok hnext).source_eq
  · rw [Cursor.pos_of_endOfLine hnext h.within, h.source_eq]
  · apply h.noted.skip hstart hlt (h.next_cursor.trans hnext) Token.noConfusion
    intro label heq
    contradiction

/-- Skipping the rest of a line whose head has been read leads to the line that follows. -/
theorem Visiting.skipLine (h : Visiting s t c) (hnext : Cursor.next c = .ok u c')
    (hu : u ≠ .endOfLine) (hnoted : Noted s (Line.following s.chars c.pos) t') :
  Visiting s t' c'.skipLine
  := by
  have hsource := (Cursor.keeps_ahead_next.of_ok hnext).source_eq
  have hwithin := h.within.next hnext
  rw [Cursor.Within, hsource] at hwithin
  apply h.following (d := c'.skipLine) hsource _ hnoted
  rw [Cursor.pos_skipLine, hsource, (Cursor.joined_of_next hnext hu).following_eq hwithin,
    h.source_eq]

/-- After a line with a new label the visit comes to the next one with this label noted. -/
theorem Visiting.number (h : Visiting s t c) (hnext : Cursor.next c = .ok (.number label) c')
    (hnone : t.get? label = none) :
  Visiting s (t.insert label c'.pos) c'.skipLine
  := by
  obtain ⟨hstart, hlt⟩ := h.start_of_next hnext Token.noConfusion
  apply h.skipLine hnext Token.noConfusion
  apply h.noted.insert hstart hlt (h.next_cursor.trans hnext) hnone

/-- After a line without a label the visit comes to the next one. -/
theorem Visiting.unlabelled (h : Visiting s t c) (hnext : Cursor.next c = .ok u c')
    (hend : u.isEnd = false) (hu : ∀ label, u ≠ .number label) :
  Visiting s t c'.skipLine
  := by
  have hline : u ≠ .endOfLine := by
    rintro rfl
    contradiction
  have hprogram : u ≠ .endOfProgram := by
    rintro rfl
    contradiction
  obtain ⟨hstart, hlt⟩ := h.start_of_next hnext hprogram
  apply h.skipLine hnext hline
  apply h.noted.skip hstart hlt (h.next_cursor.trans hnext) hprogram hu

end Visiting

/-! ### Building the table -/

/-- The right outcome of looking for the labels of a source. -/
def Verdict (s : Source) : EStateM.Result Fault Cursor Labels → Prop
  | .ok t _ => Complete s t
  | .error f _ => FirstOffence s f

/-- The visit goes on from line to line with the labels of the lines before, and comes to the
right outcome. -/
theorem verdict_scan (n : Nat) :
  ∀ t (c : Cursor), Visiting s t c → c.remaining < n → Verdict s (scan n t c)
  := by
  induction n with
  | zero =>
    intro t c h hn
    contradiction
  | succ n ih =>
    intro t c h hn
    rw [scan_succ]
    cases hnext : Cursor.next c with
    | error f c' => apply h.firstOffence_of_error hnext
    | ok u c' =>
      have hskip := (Cursor.ahead_skipLine c').remaining_le
      have hless : u ≠ .endOfProgram → c'.remaining < n := by
        intro hu
        have hlt := Cursor.remaining_lt_of_next hnext hu
        omega
      cases u with
      | endOfProgram => exact h.noted.complete h.place (h.next_cursor.trans hnext)
      | endOfLine => apply ih t c' (h.endOfLine hnext) (hless Token.noConfusion)
      | number label =>
        simp only
        split
        · next hsome => apply h.firstOffence_of_number hnext hsome
        · next hnone =>
          rw [Option.not_isSome_iff_eq_none] at hnone
          apply ih _ _ (h.number hnext hnone)
          have hlt := hless Token.noConfusion
          omega
      | delimiter | name | keyword | quoted =>
        apply ih t _ (h.unlabelled hnext rfl fun _ => Token.noConfusion)
        have hlt := hless Token.noConfusion
        omega

/-- The visit of a whole source comes to the right outcome. -/
theorem verdict_build (c : Cursor) :
  Verdict c.source (build c)
  := by
  have hscan : Verdict c.source (scan (c.source.size + 1) empty (c.jump 0)) := by
    apply verdict_scan
    · constructor
      · rfl
      · exact .inl Start.first
      · apply noted_empty
    · rw [Cursor.remaining_eq, Source.size_eq]
      exact Nat.lt_succ_of_le (Nat.sub_le _ _)
  cases h : build c with
  | ok t c' =>
    obtain ⟨c₁, h₁, -⟩ := build_eq_ok_iff.mp h
    rw [h₁] at hscan
    apply hscan
  | error f c' =>
    rw [build_eq_error_iff.mp h] at hscan
    apply hscan

/-! ### Building it again -/

/-- The labels are noted by reading tokens and skipping lines. -/
theorem keeps_scan {P : Cursor → Cursor → Prop} [Std.Refl P] [IsTrans Cursor P]
    (hP : Cursor.Kept P) (n : Nat) :
  ∀ t, Keeps P (scan n t)
  := by
  induction n with
  | zero =>
    intro t c
    apply Std.Refl.refl
  | succ n ih =>
    intro t c
    rw [scan_succ]
    cases h : Cursor.next c with
    | error f c' => apply hP.next.of_error h
    | ok u c' =>
      have hnext := hP.next.of_ok h
      have hskip : P c c'.skipLine := IsTrans.trans _ _ _ hnext (hP.skipLine c')
      cases u with
      | endOfProgram => apply hnext
      | endOfLine => apply IsTrans.trans _ _ _ hnext (ih t c')
      | number label =>
        simp only
        split
        · apply hnext
        · apply IsTrans.trans _ _ _ hskip (ih _ _)
      | delimiter | name | keyword | quoted => apply IsTrans.trans _ _ _ hskip (ih t _)

/-- Labels that are at fault are so in the line in which the last token starts that is read. -/
theorem line?_of_scan_eq_error {f : Fault} {c' : Cursor} (n : Nat) :
  ∀ t c, scan n t c = .error f c' → f.line? = some (c'.lineOf c'.start)
  := by
  induction n with
  | zero =>
    rintro t c ⟨⟩
  | succ n ih =>
    intro t c h
    rw [scan_succ] at h
    cases hnext : Cursor.next c with
    | error f' c₁ =>
      rw [hnext] at h
      cases h
      obtain ⟨-, -, rfl⟩ := Cursor.next_eq_error_iff.mp hnext
      rfl
    | ok u c₁ =>
      rw [hnext] at h
      cases u with
      | endOfProgram => cases h
      | endOfLine => apply ih _ _ h
      | number label =>
        simp only at h
        split at h
        · cases h
          have hj := Cursor.joined_start_of_next hnext Token.noConfusion
          have hsource := (Cursor.keeps_ahead_next.of_ok hnext).source_eq
          rw [← hsource] at hj
          rw [Cursor.lineOf, hj.breaks_eq]
          rfl
        · apply ih _ _ h
      | delimiter | name | keyword | quoted => apply ih _ _ h

theorem line?_of_build_eq_error {c c' : Cursor} {f : Fault} (h : build c = .error f c') :
  f.line? = some (c'.lineOf c'.start)
  := by
  apply line?_of_scan_eq_error _ _ _ (build_eq_error_iff.mp h)

/-- What is kept while the labels are noted holds of the place where they turn out to be at
fault. -/
theorem of_build_eq_error {P : Cursor → Cursor → Prop} [Std.Refl P] [IsTrans Cursor P]
    (hP : Cursor.Kept P) {c c' : Cursor} {f : Fault} (h : build c = .error f c') :
  P (c.jump 0) c'
  := by
  apply (keeps_scan hP _ empty).of_error (build_eq_error_iff.mp h)

theorem keeps_sameSource_build :
  Keeps Cursor.SameSource build
  := by
  intro c
  cases h : build c with
  | error f c' => exact of_build_eq_error Cursor.kept_sameSource h
  | ok t c' =>
    obtain ⟨c₁, hscan, rfl⟩ := build_eq_ok_iff.mp h
    apply (keeps_scan Cursor.kept_sameSource _ empty).of_ok hscan

/-- The place of the cursor does not matter for the labels. -/
theorem build_of_sameSource {c c' : Cursor} (h : Cursor.SameSource c c') :
  build c' = build c
  := by
  have hjump : c'.jump 0 = c.jump 0 := by
    rw [Cursor.jump, Cursor.jump, h]
  rw [build, build, hjump, h]

/-- The cursor is at the start once all labels have been noted. -/
theorem eq_of_build_eq_ok {c c' : Cursor} {t : Labels} (h : build c = .ok t c') :
  c' = { source := c.source }
  := by
  have hkeeps := keeps_sameSource_build.of_ok h
  obtain ⟨c₁, -, rfl⟩ := build_eq_ok_iff.mp h
  rw [← hkeeps]
  rfl

/-! ### The labels of a source -/

/-- The labels of a source are those of its visited lines: there is a table of them exactly if no
visited line starts with a quoted text that is not closed, and no two have the same label.  The
table yields for a label the offset that follows it in the line that has it; the cursor is at the
start, and building the table again yields the same.  Otherwise the fault is that of the first
visited line that has one. -/
theorem build_notes_visited_lines (c : Cursor) :
  ((∃ t c', build c = .ok t c') ↔
    (∀ b, c.source.Visited b → ¬ c.source.Unclosed b) ∧
      ∀ b b' label a a', c.source.Visited b → c.source.Visited b' →
        c.source.Labelled b label a → c.source.Labelled b' label a' → b = b') ∧
  (∀ t c', build c = .ok t c' →
    (∀ label a, t.get? label = some a ↔
      ∃ b, c.source.Visited b ∧ c.source.Labelled b label a) ∧
    c'.pos = 0 ∧ ∃ c'', build c' = .ok t c'') ∧
  ∀ f c', build c = .error f c' →
    ∃ b, c.source.Visited b ∧ c.source.Offends b f ∧
      ∀ b' < b, ∀ f', c.source.Visited b' → ¬ c.source.Offends b' f'
  := by
  have hverdict := verdict_build c
  and_intros
  · constructor
    · rintro ⟨t, c', h⟩
      rw [h] at hverdict
      exact ⟨hverdict.closed, hverdict.unique⟩
    · rintro ⟨hclosed, hunique⟩
      cases h : build c with
      | ok t c' => exact ⟨t, c', rfl⟩
      | error f c' =>
        rw [h] at hverdict
        obtain ⟨b, hb, hf, -⟩ := hverdict
        cases hf with
        | unclosed hnot => exact absurd hnot (hclosed b hb)
        | repeated hlabel hlt hstart hlabel' =>
          have hb' := hb.left (Nat.le_of_lt hlt) hstart
          have heq := hunique _ _ _ _ _ hb hb' hlabel hlabel'
          omega
  · intro t c' h
    rw [h] at hverdict
    refine ⟨hverdict.get?_eq, ?_, c', ?_⟩
    · rw [eq_of_build_eq_ok h]
    · rw [build_of_sameSource (keeps_sameSource_build.of_ok h), h]
  · intro f c' h
    rw [h] at hverdict
    apply hverdict

/-- The table of a program with a blank line, in which a quote and an undefined character stand
within lines, and the fault of one whose last line repeats the label of the first. -/
theorem build_notes_visited_lines_of_repeated :
  (∃ t c', build ((Source.ofString "7 \"\r\n\r 10?\n!\n7").cursor 3) = .ok t c' ∧
    (∃ b, (Source.ofString "7 \"\r\n\r 10?\n!\n7").Visited b ∧
      (Source.ofString "7 \"\r\n\r 10?\n!\n7").Labelled b "10?" 10)) ∧
  ∃ f c', build ((Source.ofString "7 A\r\n\r10 B\n7").cursor 3) = .error f c' ∧
    f = ⟨.duplicateLabel, some 4, "7"⟩ ∧
    ∃ b, (Source.ofString "7 A\r\n\r10 B\n7").Visited b ∧
      (Source.ofString "7 A\r\n\r10 B\n7").Offends b f
  := by
  constructor
  · have hget : (match build ((Source.ofString "7 \"\r\n\r 10?\n!\n7").cursor 3) with
        | .ok t _ => t.get? "10?"
        | .error _ _ => none) = some 10 := by
      decide +kernel
    cases h : build ((Source.ofString "7 \"\r\n\r 10?\n!\n7").cursor 3) with
    | ok t c' =>
      rw [h] at hget
      use t, c', rfl
      apply ((build_notes_visited_lines _).2.1 t c' h).1 "10?" 10 |>.mp hget
    | error f c' =>
      rw [h] at hget
      contradiction
  · have hfault : (match build ((Source.ofString "7 A\r\n\r10 B\n7").cursor 3) with
        | .ok _ _ => none
        | .error f _ => some f) = some ⟨.duplicateLabel, some 4, "7"⟩ := by
      decide +kernel
    cases h : build ((Source.ofString "7 A\r\n\r10 B\n7").cursor 3) with
    | ok t c' =>
      rw [h] at hfault
      contradiction
    | error f c' =>
      rw [h] at hfault
      obtain ⟨b, hb, hf, -⟩ := (build_notes_visited_lines _).2.2 f c' h
      exact ⟨f, c', rfl, Option.some.inj hfault, b, hb, hf⟩

end Labels

end LineBasic
