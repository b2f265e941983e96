import LineBasic.Proofs.Machine.Effect
import LineBasic.Proofs.Reading.Forward
import LineBasic.Proofs.Reading.Order

/-!
# Statements that do not jump

A statement jumps when it goes on at a label, at the caller of a subroutine, or once more with
the body of a loop.  Every other statement goes on behind what has been read of it: after its
first token, in its line or at the start of the next one.
-/

namespace LineBasic

open Program Execution
open Cursor (InLine)

/-- The words of the statements that jump, some of them not always. -/
def Keyword.isJump : Keyword → Bool
  | .gotoWord | .gosubWord | .returnWord | .nextWord | .untilWord => true
  | .printWord | .inputWord | .endWord | .ifWord | .thenWord | .forWord | .toWord | .repeatWord =>
    false

/-- The token is such a word. -/
def Token.isJump : Token → Bool
  | .keyword k => k.isJump
  | .delimiter _ | .name _ | .number _ | .quoted _ | .endOfLine | .endOfProgram => false

namespace Machine

/-- The next statement of the machine jumps. -/
inductive Jumps (m : Machine) : Prop
  | goto {c : Cursor} (h : Cursor.next m.cursor = .ok (.keyword .gotoWord) c)
  | gosub {c : Cursor} (h : Cursor.next m.cursor = .ok (.keyword .gosubWord) c)
  | back {c : Cursor} (h : Cursor.next m.cursor = .ok (.keyword .returnWord) c)
  /-- `NEXT` that goes on with the body of the loop. -/
  | nextTurn {c : Cursor} {l : Loop} {st : Stack .loops Loop}
    (h : Cursor.next m.cursor = .ok (.keyword .nextWord) c) (hpop : m.loops.pop = .ok (l, st))
    (hx : ¬ m.memory.fetch l.slot + 1.0 > l.target)
  /-- `UNTIL` that goes on with the body of the loop. -/
  | repeatAgain {c c' : Cursor} {x : Float}
    (h : Cursor.next m.cursor = .ok (.keyword .untilWord) c)
    (hread : Reading.expression m.memory c = .ok x c') (hx : (x != 0.0) = false)

variable {s : Source} {m m' : Machine} {t : Token} {c : Cursor} {e? : Option Event}

/-- A statement that jumps starts with a word of one that does. -/
theorem Jumps.exists_isJump (h : m.Jumps) :
  ∃ k c, Cursor.next m.cursor = .ok (.keyword k) c ∧ k.isJump = true
  := by
  cases h with
  | goto h | gosub h | back h | nextTurn h | repeatAgain h => exact ⟨_, _, h, rfl⟩

/-- A statement that does not jump goes on where it has been read to, in its line or at the start
of the next one. -/
theorem straight_of_step (hs : m.cursor.source = s) (hm : m.cursor.Within)
    (hnext : Cursor.next m.cursor = .ok t c) (hstep : step m = .ok e? m') (hjumps : ¬ m.Jumps) :
  c.pos ≤ m'.cursor.pos ∧ ∃ p, InLine s c.start p m'.cursor
  := by
  have hc := Cursor.inLine_of_next hs hm hnext
  have heffect := effect_step hnext
  rw [hstep] at heffect
  cases heffect with
  | thenWord | toWord | number | delimiter | quoted | endOfLine | endWord | endOfProgram =>
    exact ⟨Nat.le_refl _, _, hc⟩
  | enterRepeat => exact ⟨Nat.le_refl _, _, hc⟩
  | assign h =>
    have hname := Cursor.next_pushBack hnext
    have hback := hc.pushBack Reading.Stage.noConfusion
    exact ⟨Reading.pos_le_of_named hname h, Reading.orderly_assignment.inLine_of_ok hback h⟩
  | print h => exact ⟨Reading.pos_le_of_printed h, Reading.orderly_printed.inLine_of_ok hc h⟩
  | input h => exact ⟨Reading.pos_le_of_request h, Reading.orderly_request.inLine_of_ok hc h⟩
  | branch h => exact ⟨Reading.pos_le_of_condition h, Reading.orderly_condition.inLine_of_ok hc h⟩
  | enterLoop h htarget =>
    have hpos := Reading.pos_le_of_assignment h
    have hpos' := Reading.pos_le_of_target htarget
    obtain ⟨_, rfl, hc'⟩ := Reading.orderly_assignment.of_ok hc h
    exact ⟨Nat.le_trans hpos hpos', Reading.orderly_target.inLine_of_ok hc' htarget⟩
  | leaveLoop h =>
    exact ⟨Reading.pos_le_of_loopName h, Reading.orderly_loopName.inLine_of_ok hc h⟩
  | leaveRepeat _ h =>
    exact ⟨Reading.pos_le_of_expression h, Reading.orderly_expression.inLine_of_ok hc h⟩
  | goto => exact absurd (.goto hnext) hjumps
  | gosub => exact absurd (.gosub hnext) hjumps
  | back => exact absurd (.back hnext) hjumps
  | nextTurn _ hpop hx => exact absurd (.nextTurn hnext hpop hx) hjumps
  | repeatAgain _ h hx => exact absurd (.repeatAgain hnext h hx) hjumps

end Machine

end LineBasic
