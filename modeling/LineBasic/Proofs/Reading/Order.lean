import LineBasic.Proofs.Cursor.Line
import LineBasic.Statement

/-!
# Reading in order

What belongs to a statement stands in one line.  Reading is in order when nothing is read after
the end of the line, or of the program, unless this end has been given back, and nothing at all
after the rest of the line has been left out.  All parts of statements are read in order, and
reading in order does not lead out of the line, but to the start of the one that follows.
-/

namespace LineBasic

open Program
open Line (Joined following)

namespace Reading

/-- How far a line has been read. -/
inductive Stage where
  /-- The next token of the line can be read. -/
  | inside
  /-- The end of the line or of the program has been read, and can be given back. -/
  | ended
  /-- The line has been left. -/
  | left
  deriving DecidableEq

/-- The stage after a token. -/
def Stage.after (t : Token) : Stage :=
  if t.isEnd then .ended else .inside

theorem Stage.after_of_not_isEnd {t : Token} (h : t.isEnd = false) :
  Stage.after t = .inside
  := by
  rw [after, h, if_neg Bool.false_ne_true]

theorem Stage.after_ne_left (t : Token) :
  Stage.after t ≠ .left
  := by
  cases t
  all_goals
    intro h
    cases h

/-- Reading in order from a stage on.  It is made up of reading tokens, giving them back and
leaving out the rest of a line, where each of these has its stages, and takes notice of nothing
else but the number of characters left.  Its values and the stages in which they are yielded are
as `Q` says; its faults are not yet placed in a line. -/
inductive Orderly : {α : Type} → Stage → Reading α → (α → Stage → Prop) → Prop
  | pure {α : Type} {p : Stage} {a : α} {Q : α → Stage → Prop} (h : Q a p) :
    Orderly p (pure a) Q
  | throw {α : Type} {p : Stage} {f : Fault} {Q : α → Stage → Prop} (hp : p ≠ .left)
    (hf : f.line? = none) : Orderly p (throw f) Q
  | next {Q : Token → Stage → Prop} (h : ∀ t, Q t (.after t)) : Orderly .inside Cursor.next Q
  | pushBack {p : Stage} {Q : Unit → Stage → Prop} (hp : p ≠ .left) (h : Q () .inside) :
    Orderly p pushBack Q
  | skipLine {Q : Unit → Stage → Prop} (h : Q () .left) :
    Orderly .inside (modify Cursor.skipLine) Q
  | look {α : Type} {p : Stage} {k : Nat → Reading α} {Q : α → Stage → Prop}
    (h : ∀ n, Orderly p (k n) Q) : Orderly p (do k (← get).remaining) Q
  | bind {α β : Type} {p : Stage} {r : Reading α} {k : α → Reading β} {R : α → Stage → Prop}
    {Q : β → Stage → Prop} (hr : Orderly p r R) (hk : ∀ a q, R a q → Orderly q (k a) Q) :
    Orderly p (r >>= k) Q

/-- What follows the next token goes on from the stage after this token. -/
theorem orderly_next_bind {α : Type} {k : Token → Reading α} {Q : α → Stage → Prop}
    (h : ∀ t, Orderly (.after t) (k t) Q) :
  Orderly .inside (Cursor.next >>= k) Q
  := by
  apply Orderly.bind (.next (Q := fun t q => q = .after t) fun t => rfl)
  rintro t _ rfl
  apply h

/-- What follows a token that is given back goes on in the line. -/
theorem orderly_pushBack_bind {α : Type} {p : Stage} {k : Unit → Reading α}
    {Q : α → Stage → Prop} (hp : p ≠ .left) (h : Orderly .inside (k ()) Q) :
  Orderly p (pushBack >>= k) Q
  := by
  apply Orderly.bind (.pushBack (Q := fun _ q => q = .inside) hp rfl)
  rintro _ _ rfl
  apply h

theorem orderly_fail {α : Type} {p : Stage} {kind : Fault.Kind} {detail : String}
    {Q : α → Stage → Prop} (hp : p ≠ .left) :
  Orderly p (fail kind detail) Q
  := .throw hp rfl

/-- Less may be said of the values. -/
theorem Orderly.mono {α : Type} {p : Stage} {r : Reading α} {Q Q' : α → Stage → Prop}
    (h : Orderly p r Q) (hQ : ∀ a q, Q a q → Q' a q) :
  Orderly p r Q'
  := by
  rw [← bind_pure r]
  apply h.bind
  intro a q ha
  exact .pure (hQ a q ha)

end Reading

/-! ### Expressions -/

namespace Rule

open Reading (Stage Orderly orderly_fail orderly_next_bind)

variable {operand nested : Rule} {m : Memory}

/-- A rule is in order when it has no more than its first token behind it, and leaves no more
than the token after its part behind it. -/
def InOrder (r : Rule) : Prop :=
  ∀ t, Orderly (.after t) (r t) fun a q => q = .after a.2

theorem orderly_apply (h : InOrder operand) (d : Delimiter) (x : Float) :
  Orderly .inside (operand.apply d x) fun a q => q = .after a.2
  := by
  apply orderly_next_bind
  intro t
  apply (h t).bind
  rintro ⟨y, u⟩ _ rfl
  cases hv : d.value? x y with
  | some z =>
    simp only [hv]
    exact .pure rfl
  | none =>
    simp only [hv]
    exact orderly_fail (Stage.after_ne_left u)

theorem orderly_chain (h : InOrder operand) (kind : Delimiter → Bool) (n : Nat) :
  ∀ a : Float × Token, Orderly (.after a.2) (chain kind operand n a) fun b q => q = .after b.2
  := by
  induction n with
  | zero =>
    intro a
    exact orderly_fail (Stage.after_ne_left a.2)
  | succ n ih =>
    rintro ⟨x, t⟩
    cases t with
    | delimiter d =>
      rw [chain]
      split
      · apply (orderly_apply h d x).bind
        rintro b _ rfl
        apply ih
      · exact .pure rfl
    | name | number | keyword | quoted | endOfLine | endOfProgram => exact .pure rfl

theorem inOrder_leftward (h : InOrder operand) (kind : Delimiter → Bool) (n : Nat) :
  InOrder (leftward kind operand n)
  := by
  intro t
  apply (h t).bind
  rintro a _ rfl
  apply orderly_chain h

theorem inOrder_rightward (h : InOrder operand) (kind : Delimiter → Bool) (n : Nat) :
  InOrder (rightward kind operand n)
  := by
  induction n with
  | zero =>
    intro t
    exact orderly_fail (Stage.after_ne_left t)
  | succ n ih =>
    intro t
    apply (h t).bind
    rintro ⟨x, u⟩ _ rfl
    cases u with
    | delimiter d =>
      simp only
      split
      · apply orderly_apply ih
      · exact .pure rfl
    | name | number | keyword | quoted | endOfLine | endOfProgram => exact .pure rfl

/-- A value that is followed by the next token. -/
theorem orderly_followed (x : Float) :
  Orderly .inside (do return (x, ← Cursor.next)) fun a q => q = .after a.2
  := by
  apply orderly_next_bind
  intro t
  exact .pure rfl

theorem inOrder_atom :
  InOrder (atom m)
  := by
  intro t
  cases t with
  | number s =>
    rw [atom]
    split
    · apply orderly_followed
    · exact orderly_fail (Stage.after_ne_left _)
  | name s =>
    rw [atom]
    split
    · apply orderly_followed
    · exact orderly_fail (Stage.after_ne_left _)
  | delimiter | keyword | quoted | endOfLine | endOfProgram =>
    exact orderly_fail (Stage.after_ne_left _)

theorem inOrder_factor (h : InOrder nested) :
  InOrder (factor m nested)
  := by
  intro t
  by_cases ht : t = .delimiter .openParen
  · subst ht
    apply orderly_next_bind
    intro u
    apply (h u).bind
    rintro ⟨x, v⟩ _ rfl
    simp only
    split
    · next hv =>
      rw [hv]
      apply orderly_followed
    · exact orderly_fail (Stage.after_ne_left v)
  · rw [factor]
    · apply inOrder_atom
    · apply ht

theorem inOrder_signed (h : InOrder nested) :
  InOrder (signed m nested)
  := by
  intro t
  rw [signed.eq_def]
  split
  · apply orderly_next_bind
    intro u
    apply (inOrder_factor h u).bind
    rintro ⟨x, v⟩ _ rfl
    exact .pure rfl
  · apply orderly_next_bind
    intro u
    apply inOrder_factor h
  · apply inOrder_factor h

theorem inOrder_comparisons (n : Nat) :
  InOrder (comparisons m n)
  := by
  induction n with
  | zero =>
    intro t
    exact orderly_fail (Stage.after_ne_left t)
  | succ n ih =>
    have hpowers : InOrder (powers m (comparisons m n) (n + 1)) :=
      inOrder_rightward (inOrder_signed ih) _ _
    have hsums : InOrder (sums m (comparisons m n) (n + 1)) :=
      inOrder_leftward (inOrder_leftward hpowers _ _) _ _
    apply inOrder_rightward hsums

end Rule

/-! ### Parts of statements -/

namespace Reading

variable {m : Memory}

theorem orderly_evaluate :
  Orderly .inside (evaluate m) fun _ q => q ≠ .left
  := by
  apply orderly_next_bind
  intro t
  split
  · exact orderly_fail (Stage.after_ne_left t)
  · apply Orderly.look (k := fun n => do return (← Rule.comparisons m (n + 2) t).1)
    intro n
    apply (Rule.inOrder_comparisons (n + 2) t).bind
    rintro ⟨x, u⟩ _ rfl
    exact .pure (Stage.after_ne_left u)

/-- The token after an expression is given back, also if it ends the line. -/
theorem orderly_expression :
  Orderly .inside (expression m) fun _ q => q = .inside
  := by
  apply orderly_evaluate.bind
  intro x q hq
  apply orderly_pushBack_bind hq
  exact .pure rfl

theorem orderly_slotOf (t : Token) :
  Orderly (.after t) (slotOf t) fun _ q => q = .inside
  := by
  cases t with
  | name s =>
    rw [slotOf, Slot.ofName]
    cases Slot.ofName? s with
    | some i => exact .pure rfl
    | none => exact .throw (Stage.after_ne_left _) rfl
  | delimiter | number | keyword | quoted | endOfLine | endOfProgram =>
    exact orderly_fail (Stage.after_ne_left _)

theorem orderly_expect (t : Token) (kind : Fault.Kind) :
  Orderly .inside (expect t kind) fun _ q => q = .after t
  := by
  apply orderly_next_bind
  intro u
  split
  · next hu =>
    rw [hu]
    exact .pure rfl
  · exact orderly_fail (Stage.after_ne_left u)

theorem orderly_assignment :
  Orderly .inside (assignment m) fun _ q => q = .inside
  := by
  apply orderly_next_bind
  intro t
  apply (orderly_slotOf t).bind
  rintro i _ rfl
  apply (orderly_expect _ _).bind
  rintro _ _ rfl
  apply orderly_expression.bind
  rintro x _ rfl
  exact .pure rfl

theorem orderly_target :
  Orderly .inside (target m) fun _ q => q = .inside
  := by
  apply (orderly_expect _ _).bind
  rintro _ _ rfl
  apply orderly_expression

theorem orderly_destination (labels : Labels) :
  Orderly .inside (destination labels) fun _ q => q = .inside
  := by
  apply orderly_next_bind
  intro t
  cases t with
  | number s =>
    simp only
    split
    · exact .pure rfl
    · exact orderly_fail (Stage.after_ne_left _)
  | delimiter | name | keyword | quoted | endOfLine | endOfProgram =>
    exact orderly_fail (Stage.after_ne_left _)

theorem orderly_condition :
  Orderly .inside (condition m) fun _ _ => True
  := by
  apply orderly_expression.bind
  rintro x _ rfl
  split
  · exact .skipLine trivial
  · exact (orderly_expect _ _).mono fun _ _ _ => trivial

theorem orderly_loopName :
  Orderly .inside loopName fun _ q => q = .inside
  := by
  apply orderly_next_bind
  intro t
  cases t with
  | name s => exact .pure rfl
  | delimiter | number | keyword | quoted | endOfLine | endOfProgram =>
    exact .pushBack (Stage.after_ne_left _) rfl

theorem orderly_request :
  Orderly .inside request fun _ q => q = .inside
  := by
  apply orderly_next_bind
  intro t
  cases t with
  | quoted s =>
    apply (orderly_expect _ _).bind
    rintro _ _ rfl
    apply orderly_next_bind
    intro u
    apply (orderly_slotOf u).bind
    rintro i _ rfl
    exact .pure rfl
  | delimiter | name | number | keyword | endOfLine | endOfProgram =>
    simp only
    apply (orderly_slotOf _).bind
    rintro i _ rfl
    exact .pure rfl

theorem orderly_item {t : Token} (ht : t.isEnd = false) :
  Orderly .inside (item m t) fun _ q => q = .inside
  := by
  cases t with
  | quoted s => exact .pure rfl
  | delimiter | name | number | keyword | endOfLine | endOfProgram =>
    apply orderly_pushBack_bind Stage.noConfusion
    apply orderly_expression.bind
    rintro x _ rfl
    exact .pure rfl

theorem orderly_items (n : Nat) :
  ∀ line separated, Orderly .inside (items m n line separated) fun _ _ => True
  := by
  induction n with
  | zero =>
    intro line separated
    exact orderly_fail Stage.noConfusion
  | succ n ih =>
    intro line separated
    apply orderly_next_bind
    intro t
    cases ht : t.isEnd with
    | true => exact .pure trivial
    | false =>
      simp only [Bool.false_eq_true, if_false]
      rw [Stage.after_of_not_isEnd ht]
      apply (orderly_item ht).bind
      rintro s _ rfl
      apply orderly_next_bind
      intro u
      split
      · apply ih
      · apply ih
      · exact .pure trivial
      · exact .pure trivial
      · exact orderly_fail (Stage.after_ne_left u)

theorem orderly_printed :
  Orderly .inside (printed m) fun _ _ => True
  := by
  apply Orderly.look (k := fun n => items m (n + 1) "" false)
  intro n
  apply orderly_items

end Reading

/-! ### Staying in the line -/

namespace Cursor

open Reading (Stage)

/-- The cursor is in the line that holds the offset `a`, as far as the stage says, and the token
that can be given back starts in this line. -/
structure InLine (s : Source) (a : Nat) (p : Stage) (c : Cursor) : Prop where
  source_eq : c.source = s
  within : c.Within
  start : p ≠ .left → Joined s.chars a c.start
  pos : Joined s.chars a c.pos ∨ p ≠ .inside ∧ c.pos = following s.chars a

variable {s : Source} {a : Nat} {p : Stage} {c c' : Cursor} {t : Token} {f : Fault}

theorem InLine.joined (h : InLine s a .inside c) :
  Joined s.chars a c.pos
  := h.pos.resolve_right fun hleft => hleft.1 rfl

theorem InLine.within_chars (h : InLine s a p c) :
  c.pos ≤ s.chars.length
  := by
  rw [← h.source_eq]
  apply h.within

/-- Inside of a line, the same line follows everywhere. -/
theorem InLine.following_eq (h : InLine s a .inside c) :
  following s.chars c.pos = following s.chars a
  := h.joined.following_eq h.within_chars

/-- A token that has been read in a line starts in it, and ends in it or with it. -/
theorem InLine.next (h : InLine s a .inside c) (hnext : Cursor.next c = .ok t c') :
  InLine s a (.after t) c'
  where
  source_eq := (keeps_ahead_next.of_ok hnext).source_eq.trans h.source_eq
  within := h.within.next hnext
  start _ := by
    have hblanks := joined_skipBlanks c
    rw [h.source_eq] at hblanks
    rw [start_of_next hnext]
    apply h.joined.trans hblanks
  pos := by
    by_cases ht : t = .endOfLine
    · subst ht
      apply Or.inr
      constructor
      · apply Stage.noConfusion
      · rw [pos_of_endOfLine hnext h.within, h.source_eq, h.following_eq]
    · have hj := joined_of_next hnext ht
      rw [h.source_eq] at hj
      exact .inl (h.joined.trans hj)

/-- After the first token of a statement, the cursor is in the line in which the token starts. -/
theorem inLine_of_next (hs : c.source = s) (hc : c.Within) (hnext : Cursor.next c = .ok t c') :
  InLine s c'.start (.after t) c'
  := by
  have hskip : InLine s c.skipBlanks.pos .inside c.skipBlanks :=
    ⟨hs, hc.skipBlanks, fun _ => .refl _ _, .inl (.refl _ _)⟩
  rw [start_of_next hnext]
  rw [← next_skipBlanks] at hnext
  apply hskip.next hnext

/-- What cannot be read starts in the line. -/
theorem InLine.next_error (h : InLine s a .inside c) (hnext : Cursor.next c = .error f c') :
  InLine s a .inside c'
  := by
  obtain ⟨-, -, rfl⟩ := next_eq_error_iff.mp hnext
  have hblanks := joined_skipBlanks c
  rw [h.source_eq] at hblanks
  have hj := h.joined.trans hblanks
  exact ⟨h.source_eq, h.within.skipBlanks, fun _ => hj, .inl hj⟩

theorem InLine.pushBack (h : InLine s a p c) (hp : p ≠ .left) :
  InLine s a .inside c.pushBack
  := by
  have hj := h.start hp
  exact ⟨h.source_eq, h.within.pushBack, fun _ => hj, .inl hj⟩

/-- After the rest of a line the next one starts, if there is one. -/
theorem InLine.skipLine (h : InLine s a .inside c) :
  InLine s a .left c.skipLine
  where
  source_eq := h.source_eq
  within := h.within.skipLine
  start hp := absurd rfl hp
  pos := by
    rw [pos_skipLine, h.source_eq, h.following_eq]
    exact .inr ⟨Stage.noConfusion, rfl⟩

end Cursor

namespace Reading

open Cursor (InLine)

variable {α : Type} {s : Source} {a : Nat} {p : Stage} {c c' : Cursor} {f : Fault} {r : Reading α}
  {Q : α → Stage → Prop}

/-- What has been read in order is in the line that holds the offset `a`, also if it has ended in
a fault, which is then not yet placed. -/
def Confined (s : Source) (a : Nat) (Q : α → Stage → Prop) : EStateM.Result Fault Cursor α → Prop
  | .ok v c => ∃ q, Q v q ∧ InLine s a q c
  | .error f c => f.line? = none ∧ ∃ q, q ≠ .left ∧ InLine s a q c

/-- Reading in order does not lead out of the line. -/
theorem Orderly.confined (h : Orderly p r Q) (hc : InLine s a p c) :
  Confined s a Q (r c)
  := by
  induction h generalizing c with
  | pure h => exact ⟨_, h, hc⟩
  | throw hp hf => exact ⟨hf, _, hp, hc⟩
  | next h =>
    cases hnext : Cursor.next c with
    | ok t c' => exact ⟨_, h t, hc.next hnext⟩
    | error f c' =>
      have hc' := hc.next_error hnext
      obtain ⟨-, rfl, -⟩ := Cursor.next_eq_error_iff.mp hnext
      exact ⟨rfl, _, Stage.noConfusion, hc'⟩
  | pushBack hp h => exact ⟨_, h, hc.pushBack hp⟩
  | skipLine h => exact ⟨_, h, hc.skipLine⟩
  | look _ ih => exact ih _ hc
  | @bind _ _ _ r k R Q hr hk ihr ihk =>
    have hfirst := ihr hc
    cases hread : r c with
    | ok v c' =>
      rw [hread] at hfirst
      obtain ⟨q, hv, hc'⟩ := hfirst
      rw [bind_of_ok hread]
      apply ihk v q hv hc'
    | error f c' =>
      rw [hread] at hfirst
      rw [bind_of_error hread]
      exact hfirst

theorem Orderly.of_ok {v : α} (h : Orderly p r Q) (hc : InLine s a p c) (hread : r c = .ok v c') :
  ∃ q, Q v q ∧ InLine s a q c'
  := by
  have hconfined := h.confined hc
  rw [hread] at hconfined
  apply hconfined

theorem Orderly.inLine_of_ok {v : α} (h : Orderly p r Q) (hc : InLine s a p c)
    (hread : r c = .ok v c') :
  ∃ q, InLine s a q c'
  := by
  obtain ⟨q, -, hc'⟩ := h.of_ok hc hread
  use q

end Reading

end LineBasic
