import LineBasic.Proofs.Expression.Evaluation
import LineBasic.Proofs.Machine.Boundary
import LineBasic.Proofs.Machine.Jump
import LineBasic.Proofs.Number.Unpacked
import LineBasic.Proofs.Reading.Order

/-!
# Conditions

An `IF` whose condition is zero goes on after its line, and passes over the rest of the line
without reading it.  Evaluation has read one token more than the condition, which may be the end
of the line; because this token is given back, the line that is left is the one of the `IF`.  Any
other condition needs `THEN` next, and goes on right after it.
-/

namespace LineBasic

open Program
open Cursor (InLine Reads)
open Expression (Tree operators)

namespace Reading

variable {m : Memory} {c c' : Cursor} {x : Float}

/-- After a condition that is zero the rest of the line is passed over. -/
theorem condition_of_zero (h : evaluate m c = .ok x c') (hx : (x == 0.0) = true) :
  condition m c = .ok () c'.pushBack.skipLine
  := by
  rw [condition, bind_of_ok (expression_of_evaluate h), if_pos hx]
  rfl

/-- After any other condition the next token has to be `THEN`. -/
theorem condition_of_ne_zero (h : evaluate m c = .ok x c') (hx : ¬ (x == 0.0) = true) :
  condition m c = expect (.keyword .thenWord) .thenExpected c'.pushBack
  := by
  rw [condition, bind_of_ok (expression_of_evaluate h), if_neg hx]

theorem expect_of_ne {t u : Token} {kind : Fault.Kind} (h : Cursor.next c = .ok u c')
    (hu : u ≠ t) :
  expect t kind c = .error (Fault.of kind) c'
  := by
  rw [expect, bind_of_ok h, if_neg hu]
  rfl

end Reading

namespace Machine

open Execution

variable {s : Source} {m : Machine} {c c' : Cursor} {x : Float}

/-- The token after the condition is given back in the line of the `IF`. -/
theorem inLine_of_condition (h : Reachable s m)
    (hnext : Cursor.next m.cursor = .ok (.keyword .ifWord) c)
    (hx : Reading.evaluate m.memory c = .ok x c') :
  InLine s c.start .inside c'.pushBack
  := by
  have hcursor := h.settled.cursor
  have hc := Cursor.inLine_of_next hcursor.source_eq hcursor.within hnext
  obtain ⟨q, hq, hc'⟩ := Reading.orderly_evaluate.of_ok hc hx
  apply hc'.pushBack hq

/-- An `IF` that is read up to `c` and whose condition is evaluated has a tree as its condition, and
its outcome depends on the value.  If this is zero, of either sign, the machine goes on after the
line of the `IF`, with nothing changed.  Otherwise it goes on after the token that follows the
condition, in the same line, if this is `THEN`, and stops with a fault if it is not. -/
theorem branch_leaves_line (h : Reachable s m) (hrun : m.phase = .running)
    (hnext : Cursor.next m.cursor = .ok (.keyword .ifWord) c)
    (hx : Reading.evaluate m.memory c = .ok x c') :
  ∃ (a : Tree .comparison) (f : Token) (c₀ : Cursor),
    Reads c a.tokens c₀ ∧ Cursor.next c₀ = .ok f c' ∧ (∀ d ∈ operators, f ≠ .delimiter d) ∧
    a.Defined m.memory ∧ a.value m.memory = x ∧
    (x = 0.0 ∨ x = -0.0 →
      ∃ b, Line.Resumes s.chars c.start b ∧
        ∀ n, m.execute (n + 1) = execute n { m with cursor := s.cursor b, statement := c.start }) ∧
    (¬ (x = 0.0 ∨ x = -0.0) →
      (f = .keyword .thenWord →
        Line.Joined s.chars c.start c'.pos ∧
          ∀ n, m.execute (n + 1) = execute n { m with cursor := c', statement := c.start }) ∧
      (f ≠ .keyword .thenWord →
        ∀ n, m.execute (n + 1) = m.faultAt c c' (Fault.of .thenExpected)))
  := by
  obtain ⟨a, f, c₀, ha, hf, hop, hdef, hval⟩ := Expression.exists_tree_of_evaluate hx
  have hline := inLine_of_condition h hnext hx
  have hback := Cursor.next_pushBack hf
  refine ⟨a, f, c₀, ha, hf, hop, hdef, hval, ?_, ?_⟩
  · intro hzero
    have hcondition := Reading.condition_of_zero hx (Number.beq_zero_iff.mpr hzero)
    rw [Cursor.skipLine_eq hline.source_eq, hline.following_eq] at hcondition
    have hstart := Nat.le_trans hline.joined.le hline.within_chars
    refine ⟨_, Line.resumes_following hstart, ?_⟩
    apply execute_succ_of_ok hrun
    apply (step_eq_iff hnext).mpr
    exact Effect.branch hcondition
  · intro hzero
    have hcondition := Reading.condition_of_ne_zero hx (hzero ∘ Number.beq_zero_iff.mp)
    constructor
    · rintro rfl
      constructor
      · apply (hline.next hback).joined
      · apply execute_succ_of_ok hrun
        apply (step_eq_iff hnext).mpr
        apply Effect.branch
        rw [hcondition]
        apply Reading.expect_eq_ok_iff.mpr hback
    · intro hthen
      apply execute_succ_of_error hrun _ rfl
      apply (step_eq_iff hnext).mpr
      apply Effect.branchFault
      rw [hcondition]
      apply Reading.expect_of_ne hback hthen

/-- A program in which the condition of the first line is zero and the rest of this line cannot be
read, and in which `THEN` is missing on the second line. -/
def branches : Source :=
  .ofString "IF -0 THEN \"\r\nIF 1\nEND"

/-- The machine after `n` statements of this program. -/
def branching (n : Nat) : Machine :=
  ((ofSource branches).performAll [.execute n]).2

theorem reachable_branching (n : Nat) :
  Reachable branches (branching n)
  := ⟨[.execute n], rfl⟩

/-- The program passes over the text that is not closed, and stops on its second line. -/
theorem branch_leaves_line_unclosed :
  (∃ (c : Cursor) (b : Nat), Line.Resumes branches.chars c.start b ∧
    ∀ n, (branching 0).execute (n + 1) =
      execute n { branching 0 with cursor := branches.cursor b, statement := c.start }) ∧
  ∃ c c', ∀ n,
    (branching 1).execute (n + 1) = (branching 1).faultAt c c' (Fault.of .thenExpected)
  := by
  have hrun : (branching 0).phase = .running ∧ (branching 1).phase = .running := by
    decide +kernel
  constructor
  · have hread : value? (Cursor.next (branching 0).cursor) = some (.keyword .ifWord) ∧
        value? (Reading.evaluate (branching 0).memory (left (Cursor.next (branching 0).cursor))) =
          some (-0.0) := by
      decide +kernel
    have hnext := eq_ok_of_value? hread.1
    have hx := eq_ok_of_value? hread.2
    generalize left (Cursor.next (branching 0).cursor) = c at hnext hx
    obtain ⟨_, _, _, -, -, -, -, -, hzero, -⟩ :=
      branch_leaves_line (reachable_branching 0) hrun.1 hnext hx
    obtain ⟨b, hb⟩ := hzero (.inr rfl)
    exact ⟨c, b, hb⟩
  · have hread : value? (Cursor.next (branching 1).cursor) = some (.keyword .ifWord) ∧
        value? (Reading.evaluate (branching 1).memory (left (Cursor.next (branching 1).cursor))) =
          some 1.0 ∧
        value? (Cursor.next (left (Reading.evaluate (branching 1).memory
          (left (Cursor.next (branching 1).cursor)))).pushBack) = some .endOfLine := by
      decide +kernel
    have hnext := eq_ok_of_value? hread.1
    have hx := eq_ok_of_value? hread.2.1
    have hend := hread.2.2
    generalize left (Cursor.next (branching 1).cursor) = c at hnext hx hend
    generalize left (Reading.evaluate (branching 1).memory c) = c' at hx hend
    obtain ⟨_, f, _, -, hf, -, -, -, -, hother⟩ :=
      branch_leaves_line (reachable_branching 1) hrun.2 hnext hx
    rw [Cursor.next_pushBack hf] at hend
    refine ⟨c, c', (hother (by decide +kernel)).2 ?_⟩
    rintro rfl
    cases hend

end Machine

end LineBasic
