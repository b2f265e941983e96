import LineBasic.Proofs.Cursor.Line
import LineBasic.Proofs.Reading

/-!
# Reading forward

A token may be given back after it has been read, but none from before it.  What is read never
makes the token that can be given back start earlier, and what starts with reading a token takes
no notice of the one before.  Reading therefore ends where it has begun, or later.
-/

namespace LineBasic

open Program

/-- The token that can be given back does not start earlier at the second cursor. -/
def Cursor.NotBefore (c c' : Cursor) : Prop :=
  c.start ≤ c'.start

namespace Cursor

instance : Std.Refl NotBefore where
  refl c := Nat.le_refl c.start

instance : IsTrans Cursor NotBefore where
  trans _ _ _ := Nat.le_trans

/-- No token starts before the end of the one that is read before it. -/
theorem kept_notBefore :
  Kept NotBefore where
  next c := by
    have hpos := (ahead_skipBlanks c).pos_le
    cases h : Cursor.next c with
    | ok t c' =>
      change c.start ≤ c'.start
      rw [start_of_next h]
      apply Nat.le_trans c.start_le_pos hpos
    | error f c' =>
      obtain ⟨-, -, rfl⟩ := next_eq_error_iff.mp h
      apply Nat.le_trans c.start_le_pos hpos
  pushBack c := Nat.le_refl c.start
  skipLine c := Nat.le_trans c.start_le_pos (ahead_skipLine c).pos_le

end Cursor

namespace Reading

variable {α β : Type} {r : Reading α} {c c' : Cursor} {a : α} {m : Memory}

/-- Reading that takes no notice of the token before it. -/
def Afresh (r : Reading α) : Prop :=
  ∀ c, r (c.jump c.pos) = r c

theorem afresh_next :
  Afresh Cursor.next
  := fun _ => rfl

theorem Afresh.bind (h : Afresh r) (k : α → Reading β) :
  Afresh (r >>= k)
  := by
  intro c
  cases hr : r c with
  | ok a c₁ => rw [bind_of_ok hr, bind_of_ok ((h c).trans hr)]
  | error f c₁ => rw [bind_of_error hr, bind_of_error ((h c).trans hr)]

/-- Reading that takes no notice of the token before it does not lead back. -/
theorem Afresh.pos_le (h : Afresh r) (hr : Keeps Cursor.NotBefore r) (hread : r c = .ok a c') :
  c.pos ≤ c'.pos
  := by
  rw [← h c] at hread
  have hstart : c.pos ≤ c'.start := hr.of_ok hread
  apply Nat.le_trans hstart c'.start_le_pos

theorem afresh_evaluate :
  Afresh (evaluate m)
  := afresh_next.bind _

theorem pos_le_of_expression {x : Float} (h : expression m c = .ok x c') :
  c.pos ≤ c'.pos
  := by
  have hafresh : Afresh (expression m) := afresh_evaluate.bind _
  apply hafresh.pos_le (keeps_expression Cursor.kept_notBefore) h

theorem pos_le_of_assignment {x : Slot × Float} (h : assignment m c = .ok x c') :
  c.pos ≤ c'.pos
  := by
  have hafresh : Afresh (assignment m) := afresh_next.bind _
  apply hafresh.pos_le (keeps_assignment Cursor.kept_notBefore) h

theorem pos_le_of_target {x : Float} (h : target m c = .ok x c') :
  c.pos ≤ c'.pos
  := by
  have hexpect : Afresh (expect (.keyword .toWord) .toExpected) := afresh_next.bind _
  have hafresh : Afresh (target m) := hexpect.bind _
  apply hafresh.pos_le (keeps_target Cursor.kept_notBefore) h

theorem pos_le_of_condition (h : condition m c = .ok () c') :
  c.pos ≤ c'.pos
  := by
  have hexpression : Afresh (expression m) := afresh_evaluate.bind _
  have hafresh : Afresh (condition m) := hexpression.bind _
  apply hafresh.pos_le (keeps_condition Cursor.kept_notBefore) h

theorem pos_le_of_loopName (h : loopName c = .ok () c') :
  c.pos ≤ c'.pos
  := by
  have hafresh : Afresh loopName := afresh_next.bind _
  apply hafresh.pos_le (keeps_loopName Cursor.kept_notBefore) h

theorem pos_le_of_request {x : String × Slot} (h : request c = .ok x c') :
  c.pos ≤ c'.pos
  := by
  have hafresh : Afresh request := afresh_next.bind _
  apply hafresh.pos_le (keeps_request Cursor.kept_notBefore) h

theorem pos_le_of_printed {s : String} (h : printed m c = .ok s c') :
  c.pos ≤ c'.pos
  := by
  have hafresh : Afresh (printed m) := fun c => (afresh_next.bind _) c
  apply hafresh.pos_le (keeps_printed Cursor.kept_notBefore) h

/-- The name of an assignment may have been given back. -/
theorem pos_le_of_named {x : Slot × Float} {t : Token} (hnext : Cursor.next c.pushBack = .ok t c)
    (h : assignment m c.pushBack = .ok x c') :
  c.pos ≤ c'.pos
  := by
  have hexpect : Afresh (expect (.delimiter .equal) .equalSignExpected) := afresh_next.bind _
  have hkept := Cursor.kept_notBefore
  rw [assignment, bind_of_ok hnext] at h
  obtain ⟨i, c₁, hslot, h⟩ := bind_eq_ok_iff.mp h
  obtain rfl : c = c₁ := (keeps_slotOf (P := Eq) t).of_ok hslot
  apply (hexpect.bind _).pos_le _ h
  apply (keeps_expect hkept _ _).bind
  intro _
  apply (keeps_expression hkept).bind
  intro _
  apply keeps_pure

end Reading

end LineBasic
