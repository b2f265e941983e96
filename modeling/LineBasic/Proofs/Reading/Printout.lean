import LineBasic.Proofs.Reading.Limit

/-!
# What is printed

What `PRINT` prints is made up of quoted texts and expressions, each of which can be followed by a
separator.  A printout is written with the tokens of its items and separators, and shows the texts
of the items with blanks for the separators.  Reading what is printed yields a text exactly where
the tokens up to the end of the line are those of a printout, and it yields the text that the
printout shows.
-/

namespace LineBasic

open Program
open Cursor (Reads)
open Expression (Tree operators)

/-- No quoted text is part of an expression. -/
theorem Expression.Tree.ne_quoted_of_mem_tokens {p : Expression.Part} (a : Tree p) {t : Token}
    (ht : t ∈ a.tokens) (s : String) :
  t ≠ .quoted s
  := by
  induction a with
  | ofSum a ih | ofProduct a ih | ofPower a ih | ofSigned a ih | ofPrimary a ih => apply ih ht
  | compare a d _ b iha ihb | add a d _ b iha ihb | multiply a d _ b iha ihb
    | raise a b iha ihb =>
    simp only [tokens, List.mem_append, List.mem_cons] at ht
    rcases ht with ht | rfl | ht
    · apply iha ht
    · apply Token.noConfusion
    · apply ihb ht
  | plus a ih | minus a ih =>
    rcases List.mem_cons.mp ht with rfl | ht
    · apply Token.noConfusion
    · apply ih ht
  | parenthesized a ih =>
    simp only [tokens, List.mem_cons, List.mem_append, List.not_mem_nil, or_false] at ht
    rcases ht with rfl | ht | rfl
    · apply Token.noConfusion
    · apply ih ht
    · apply Token.noConfusion
  | number | name =>
    obtain rfl := List.mem_singleton.mp ht
    apply Token.noConfusion

namespace Reading

/-! ### Printouts -/

/-- What is printed at one time. -/
inductive Item where
  | text (s : String)
  | value (a : Tree .comparison)

namespace Item

/-- The tokens that an item is written with. -/
def tokens : Item → List Token
  | text s => [.quoted s]
  | value a => a.tokens

/-- The item has a text. -/
def Defined (m : Memory) : Item → Prop
  | text _ => True
  | value a => a.Defined m

/-- The text of an item. -/
def shown (m : Memory) : Item → String
  | text s => s
  | value a => Number.text (a.value m)

end Item

/-- What can follow an item. -/
inductive Separator where
  /-- A comma, which moves on to the next column that is a multiple of eight. -/
  | tab
  /-- A semicolon, which leaves one blank. -/
  | blank

/-- The token of a separator. -/
def Separator.token : Separator → Token
  | tab => .delimiter .comma
  | blank => .delimiter .semicolon

/-- Items with separators between them, and perhaps with one more at the end: nothing, an item, or
an item and a separator that are followed by what else there is. -/
inductive Printout where
  | nothing
  | item (i : Item)
  | separated (i : Item) (d : Separator) (rest : Printout)

namespace Printout

/-- The tokens that a printout is written with. -/
def tokens : Printout → List Token
  | nothing => []
  | item i => i.tokens
  | separated i d rest => i.tokens ++ d.token :: rest.tokens

/-- All items have a text. -/
def Defined (m : Memory) : Printout → Prop
  | nothing => True
  | item i => i.Defined m
  | separated i _ rest => i.Defined m ∧ rest.Defined m

/-- The last thing of a printout is a separator, or what stands before it if there is nothing. -/
def endsSeparated (before : Bool) : Printout → Bool
  | nothing => before
  | item _ => false
  | separated _ _ rest => rest.endsSeparated true

/-- Blanks. -/
def blanks (n : Nat) : String :=
  String.ofList (List.replicate n ' ')

/-- The text of a printout after another text: that of its items, a blank for each semicolon, and
for each comma from one to eight blanks up to a column that is a multiple of eight. -/
inductive Follows (m : Memory) : String → Printout → String → Prop
  | nothing {line : String} : Follows m line nothing line
  | item {line : String} {i : Item} : Follows m line (item i) (line ++ i.shown m)
  | blank {line text : String} {i : Item} {rest : Printout}
    (h : Follows m (line ++ i.shown m ++ " ") rest text) :
    Follows m line (separated i .blank rest) text
  | tab {line text : String} {i : Item} {rest : Printout} {n : Nat} (hpos : 1 ≤ n) (hle : n ≤ 8)
    (hcolumn : 8 ∣ (line ++ i.shown m ++ blanks n).length)
    (h : Follows m (line ++ i.shown m ++ blanks n) rest text) :
    Follows m line (separated i .tab rest) text

/-- The text of a printout, which is ended by a line feed unless the printout ends with a
separator. -/
def Shows (m : Memory) (p : Printout) (text : String) : Prop :=
  ∃ line, Follows m "" p line ∧ text = if p.endsSeparated false then line else line ++ "\n"

end Printout

/-- What stands at the first cursor, up to an end of the line or of the program that leads to the
second one, is a printout that has a text. -/
structure Prints (m : Memory) (c : Cursor) (p : Printout) (c' : Cursor) : Prop where
  defined : p.Defined m
  ended : ∃ c₀ f, Reads c p.tokens c₀ ∧ Cursor.next c₀ = .ok f c' ∧ f.isEnd = true

/-! ### The text of a printout -/

variable {m : Memory} {c c₀ c₁ c₂ c' : Cursor} {t f : Token} {s line text : String}

theorem length_blanks (n : Nat) :
  (Printout.blanks n).length = n
  := by
  simp [Printout.blanks]

/-- There is one way to come to the next column. -/
theorem blanks_eq_iff (line : String) {n : Nat} :
  (1 ≤ n ∧ n ≤ 8 ∧ 8 ∣ (line ++ Printout.blanks n).length) ↔ n = 8 - line.length % 8
  := by
  rw [String.length_append, length_blanks]
  omega

/-- The line after an item and a separator. -/
def Separator.after (line : String) : Separator → String
  | tab => tabbed line
  | blank => line ++ " "

/-- What stands after a separator follows the line after the separator. -/
theorem follows_separated_iff {d : Separator} {i : Item} {p : Printout} :
  (Printout.separated i d p).Follows m line text ↔
    p.Follows m (d.after (line ++ i.shown m)) text
  := by
  constructor
  · intro h
    cases h with
    | blank h => apply h
    | tab hpos hle hcolumn h =>
      rw [(blanks_eq_iff _).mp ⟨hpos, hle, hcolumn⟩] at h
      apply h
  · intro h
    cases d with
    | blank => exact .blank h
    | tab =>
      obtain ⟨hpos, hle, hcolumn⟩ := (blanks_eq_iff (line ++ i.shown m)).mpr rfl
      exact .tab hpos hle hcolumn h

/-- Every printout has one text. -/
theorem existsUnique_follows (m : Memory) (p : Printout) :
  ∀ line, ∃! text, p.Follows m line text
  := by
  induction p with
  | nothing =>
    intro line
    refine ⟨line, .nothing, ?_⟩
    intro text h
    cases h
    rfl
  | item i =>
    intro line
    refine ⟨_, .item, ?_⟩
    intro text h
    cases h
    rfl
  | separated i d rest ih =>
    intro line
    obtain ⟨text, h, hunique⟩ := ih (d.after (line ++ i.shown m))
    refine ⟨text, follows_separated_iff.mpr h, ?_⟩
    intro text' h'
    apply hunique _ (follows_separated_iff.mp h')

/-- Every printout shows one text. -/
theorem existsUnique_shows (m : Memory) (p : Printout) :
  ∃! text, p.Shows m text
  := by
  obtain ⟨body, hbody, hunique⟩ := existsUnique_follows m p ""
  refine ⟨_, ⟨body, hbody, rfl⟩, ?_⟩
  rintro _ ⟨body', hbody', rfl⟩
  rw [hunique body' hbody']

/-- A printout is written without the ends of lines and of the program. -/
theorem Printout.isEnd_of_mem_tokens {p : Printout} (ht : t ∈ p.tokens) :
  t.isEnd = false
  := by
  have hitem : ∀ {i : Item}, t ∈ i.tokens → t.isEnd = false := by
    intro i hi
    cases i with
    | text s =>
      obtain rfl := List.mem_singleton.mp hi
      rfl
    | value a => apply a.isEnd_of_mem_tokens hi
  induction p with
  | nothing => cases ht
  | item i => apply hitem ht
  | separated i d rest ih =>
    simp only [tokens, List.mem_append, List.mem_cons] at ht
    rcases ht with ht | rfl | ht
    · apply hitem ht
    · cases d with
      | tab | blank => rfl
    · apply ih ht

/-! ### Reading items -/

/-- An item that has been read has the text of its tokens, and leaves the token after them to be
read. -/
theorem item_of_ok (hnext : Cursor.next c = .ok t c₁) (h : item m t c₁ = .ok s c₂) :
  ∃ (i : Item) (c₀ : Cursor), Reads c i.tokens c₀ ∧ Cursor.next c₂ = Cursor.next c₀ ∧
    i.Defined m ∧ i.shown m = s
  := by
  cases t with
  | quoted u =>
    cases h
    exact ⟨.text s, c₁, Cursor.reads_singleton_iff.mpr hnext, rfl, trivial, rfl⟩
  | delimiter | name | number | keyword | endOfLine | endOfProgram =>
    obtain ⟨_, _, hback, h⟩ := bind_eq_ok_iff.mp h
    cases hback
    obtain ⟨x, _, hx, h⟩ := bind_eq_ok_iff.mp h
    cases h
    obtain ⟨_, c₃, heval, hx⟩ := bind_eq_ok_iff.mp hx
    cases hx
    obtain ⟨a, f, c₀, ha, hf, -, hdef, rfl⟩ := Expression.exists_tree_of_evaluate heval
    refine ⟨.value a, c₀, (Cursor.reads_pushBack_iff hnext a.tokens_ne_nil).mp ha, ?_, hdef, rfl⟩
    exact (Cursor.next_pushBack hf).trans hf.symm

/-- The tokens of an item that has a text are read as an item where no operator follows. -/
theorem item_of_reads {i : Item} (hi : Reads c i.tokens c₀) (hf : Cursor.next c₀ = .ok f c')
    (hop : ∀ d ∈ operators, f ≠ .delimiter d) (hdef : i.Defined m) :
  ∃ t c₁ c₂, Cursor.next c = .ok t c₁ ∧ t.isEnd = false ∧ item m t c₁ = .ok (i.shown m) c₂ ∧
    Cursor.next c₂ = .ok f c'
  := by
  cases i with
  | text s => exact ⟨.quoted s, c₀, c₀, Cursor.reads_singleton_iff.mp hi, rfl, rfl, hf⟩
  | value a =>
    obtain ⟨t, ts, hts⟩ := List.exists_cons_of_ne_nil a.tokens_ne_nil
    have hmem : t ∈ a.tokens := by
      rw [hts]
      apply List.mem_cons_self
    have hfirst : Reads c (t :: ts) c₀ := by
      rw [← hts]
      apply hi
    obtain ⟨c₁, hnext, -⟩ := Cursor.reads_cons_iff.mp hfirst
    have ha := (Cursor.reads_pushBack_iff hnext a.tokens_ne_nil).mpr hi
    have hx := Expression.evaluate_of_tree ha hf hop hdef
    refine ⟨t, c₁, c'.pushBack, hnext, a.isEnd_of_mem_tokens hmem, ?_, Cursor.next_pushBack hf⟩
    have hquoted := a.ne_quoted_of_mem_tokens hmem
    cases t with
    | quoted s => exact absurd rfl (hquoted s)
    | delimiter | name | number | keyword | endOfLine | endOfProgram =>
      have hback : pushBack c₁ = .ok () c₁.pushBack := rfl
      rw [item]
      · rw [bind_of_ok hback, bind_of_ok (expression_of_evaluate hx)]
        rfl
      · exact fun _ => Token.noConfusion

/-! ### Reading items one after the other -/

/-- Nothing is left of a line that ends. -/
theorem items_of_isEnd {n : Nat} {separated : Bool} (hnext : Cursor.next c = .ok t c₁)
    (ht : t.isEnd = true) :
  items m (n + 1) line separated c = .ok (if separated then line else line ++ "\n") c₁
  := by
  rw [items, bind_of_ok hnext, if_pos ht]
  rfl

theorem items_of_separator {n : Nat} {separated : Bool} (hnext : Cursor.next c = .ok t c₁)
    (ht : t.isEnd = false) (hitem : item m t c₁ = .ok s c₂) {d : Separator}
    (hd : Cursor.next c₂ = .ok d.token c') :
  items m (n + 1) line separated c = items m n (d.after (line ++ s)) true c'
  := by
  rw [items, bind_of_ok hnext]
  simp only [ht, Bool.false_eq_true, if_false]
  rw [bind_of_ok hitem, bind_of_ok hd]
  cases d with
  | tab | blank => rfl

theorem items_of_last {n : Nat} {separated : Bool} (hnext : Cursor.next c = .ok t c₁)
    (ht : t.isEnd = false) (hitem : item m t c₁ = .ok s c₂) (hf : Cursor.next c₂ = .ok f c')
    (hend : f.isEnd = true) :
  items m (n + 1) line separated c = .ok (line ++ s ++ "\n") c'
  := by
  rw [items, bind_of_ok hnext]
  simp only [ht, Bool.false_eq_true, if_false]
  rw [bind_of_ok hitem, bind_of_ok hf]
  cases f with
  | endOfLine | endOfProgram => rfl
  | delimiter | name | number | keyword | quoted => cases hend

/-- Neither a separator nor the end of a line is an operator. -/
theorem Separator.token_ne_delimiter (d : Separator) :
  ∀ d' ∈ operators, d.token ≠ .delimiter d'
  := by
  cases d with
  | tab | blank => decide

theorem ne_delimiter_of_isEnd (hf : f.isEnd = true) :
  ∀ d ∈ operators, f ≠ .delimiter d
  := by
  rintro d - rfl
  cases hf

/-- What is read starts with an item and goes on with a separator or with the end of the line,
unless the line has ended. -/
theorem next_of_items {n : Nat} {separated : Bool}
    (h : items m (n + 1) line separated c = .ok text c') (hnext : Cursor.next c = .ok t c₁)
    (ht : t.isEnd = false) :
  ∃ s c₂ u c₃, item m t c₁ = .ok s c₂ ∧ Cursor.next c₂ = .ok u c₃ ∧
    ((∃ d : Separator, u = d.token) ∨ u.isEnd = true)
  := by
  rw [items, bind_of_ok hnext] at h
  simp only [ht, Bool.false_eq_true, if_false] at h
  obtain ⟨s, c₂, hitem, h⟩ := bind_eq_ok_iff.mp h
  obtain ⟨u, c₃, hu, h⟩ := bind_eq_ok_iff.mp h
  refine ⟨s, c₂, u, c₃, hitem, hu, ?_⟩
  split at h
  · exact .inl ⟨.tab, rfl⟩
  · exact .inl ⟨.blank, rfl⟩
  · exact .inr rfl
  · exact .inr rfl
  · cases h

/-- What has been read is the text of a printout. -/
theorem prints_of_items {n : Nat} {separated : Bool}
    (h : items m n line separated c = .ok text c') :
  ∃ p body, Prints m c p c' ∧ p.Follows m line body ∧
    text = if p.endsSeparated separated then body else body ++ "\n"
  := by
  induction n generalizing line separated c with
  | zero => cases h
  | succ n ih =>
    obtain ⟨t, c₁, hnext, -⟩ := bind_eq_ok_iff.mp h
    cases ht : t.isEnd with
    | true =>
      rw [items_of_isEnd hnext ht] at h
      cases h
      exact ⟨.nothing, line, ⟨trivial, c, t, .nil c, hnext, ht⟩, .nothing, rfl⟩
    | false =>
      obtain ⟨s, c₂, u, c₃, hitem, hu, hcases⟩ := next_of_items h hnext ht
      obtain ⟨i, c₀, hi, hsame, hdef, rfl⟩ := item_of_ok hnext hitem
      obtain ⟨d, rfl⟩ | hend := hcases
      · rw [items_of_separator hnext ht hitem hu] at h
        obtain ⟨p, body, ⟨hp, c₄, f, hreads, hf, hend⟩, hbody, rfl⟩ := ih h
        refine ⟨.separated i d p, body, ⟨⟨hdef, hp⟩, c₄, f, ?_, hf, hend⟩,
          follows_separated_iff.mpr hbody, rfl⟩
        apply Cursor.reads_append_iff.mpr
        exact ⟨c₀, hi, .cons (hsame.symm.trans hu) hreads⟩
      · rw [items_of_last hnext ht hitem hu hend] at h
        cases h
        exact ⟨.item i, _, ⟨hdef, c₀, u, hi, hsame.symm.trans hu, hend⟩, .item, rfl⟩

/-- What is read yields the text of a printout. -/
theorem items_of_prints {p : Printout} {n : Nat} {separated : Bool} {body : String}
    (hp : Prints m c p c') (hbody : p.Follows m line body) (hn : c.remaining < n) :
  items m n line separated c =
    .ok (if p.endsSeparated separated then body else body ++ "\n") c'
  := by
  induction p generalizing n line separated c with
  | nothing =>
    obtain ⟨n, rfl⟩ := Nat.exists_eq_add_one_of_ne_zero (Nat.ne_zero_of_lt hn)
    obtain ⟨-, c₀, f, hreads, hf, hend⟩ := hp
    cases hreads
    cases hbody
    exact items_of_isEnd hf hend
  | item i =>
    obtain ⟨n, rfl⟩ := Nat.exists_eq_add_one_of_ne_zero (Nat.ne_zero_of_lt hn)
    obtain ⟨hdef, c₀, f, hi, hf, hend⟩ := hp
    obtain ⟨t, c₁, c₂, hnext, ht, hitem, hf⟩ :=
      item_of_reads hi hf (ne_delimiter_of_isEnd hend) hdef
    cases hbody
    exact items_of_last hnext ht hitem hf hend
  | separated i d rest ih =>
    obtain ⟨n, rfl⟩ := Nat.exists_eq_add_one_of_ne_zero (Nat.ne_zero_of_lt hn)
    obtain ⟨⟨hdef, hrest⟩, c₄, f, hreads, hf, hend⟩ := hp
    obtain ⟨c₀, hi, hreads⟩ := Cursor.reads_append_iff.mp hreads
    obtain ⟨c₃, hd, hreads⟩ := Cursor.reads_cons_iff.mp hreads
    obtain ⟨t, c₁, c₂, hnext, ht, hitem, hd⟩ := item_of_reads hi hd d.token_ne_delimiter hdef
    have hmore : t ≠ .endOfProgram := by
      rintro rfl
      cases ht
    have hlt := remaining_lt_of_item hnext hmore hitem
    have hle := (Cursor.keeps_ahead_next.of_ok hd).remaining_le
    rw [items_of_separator hnext ht hitem hd]
    exact ih ⟨hrest, c₄, f, hreads, hf, hend⟩ (follows_separated_iff.mp hbody) (by omega)

/-- What is printed is the text of a printout. -/
theorem printed_eq_ok_iff :
  printed m c = .ok text c' ↔ ∃ p, Prints m c p c' ∧ p.Shows m text
  := by
  rw [printed_eq_items (Nat.lt_succ_self c.remaining)]
  constructor
  · intro h
    obtain ⟨p, body, hp, hbody, htext⟩ := prints_of_items h
    exact ⟨p, hp, body, hbody, htext⟩
  · rintro ⟨p, hp, body, hbody, rfl⟩
    exact items_of_prints hp hbody (Nat.lt_succ_self _)

end Reading

end LineBasic
