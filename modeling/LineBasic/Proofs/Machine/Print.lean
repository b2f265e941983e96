import LineBasic.Proofs.Machine.Boundary
import LineBasic.Proofs.Machine.Jump
import LineBasic.Proofs.Reading.Order
import LineBasic.Proofs.Reading.Printout

/-!
# Printing

A `PRINT` reports the text of the printout that follows it up to the end of the line or of the
program.  Where no printout with a text follows, the machine stops with a fault, nothing is printed,
and nothing but its cursor and its phase has changed.
-/

namespace LineBasic

open Program
open Reading (Printout Prints)

namespace Machine

open Execution

variable {s : Source} {m m' : Machine} {c c' : Cursor} {text : String} {f : Fault}

theorem execute_print_of_ok (hrun : m.phase = .running)
    (hnext : Cursor.next m.cursor = .ok (.keyword .printWord) c)
    (h : Reading.printed m.memory c = .ok text c') (n : Nat) :
  m.execute (n + 1) = (.print text, { m with cursor := c', statement := c.start })
  := by
  apply execute_succ_of_event hrun
  apply (step_eq_iff hnext).mpr
  exact Effect.print h

theorem execute_print_of_error (hreach : Reachable s m) (hrun : m.phase = .running)
    (hnext : Cursor.next m.cursor = .ok (.keyword .printWord) c)
    (h : Reading.printed m.memory c = .error f c') (n : Nat) :
  m.execute (n + 1) = m.faultAt c c' f
  := by
  have hcursor := hreach.settled.cursor
  have hc := Cursor.inLine_of_next hcursor.source_eq hcursor.within hnext
  have hconfined := (Reading.orderly_printed (m := m.memory)).confined hc
  rw [h] at hconfined
  apply execute_succ_of_error hrun _ hconfined.1
  apply (step_eq_iff hnext).mpr
  exact Effect.printFault h

/-- A `PRINT` that is read up to `c` reports a text exactly where a printout with this text follows,
and goes on after the end of the line with nothing changed.  If none follows, the machine stops
with a fault in the line of the `PRINT`, and with nothing changed either.  A printout is written
with tokens before the first end of a line, and shows one text. -/
theorem prints_printouts (h : Reachable s m) (hrun : m.phase = .running)
    (hnext : Cursor.next m.cursor = .ok (.keyword .printWord) c) :
  (∀ n text m', m.execute (n + 1) = (.print text, m') ↔
    ∃ p c', Prints m.memory c p c' ∧ p.Shows m.memory text ∧
      m' = { m with cursor := c', statement := c.start }) ∧
  ((∀ p c', ¬ Prints m.memory c p c') → ∃ f c', ∀ n, m.execute (n + 1) = m.faultAt c c' f) ∧
  (∀ p : Printout, ∃! text, p.Shows m.memory text) ∧
  ∀ p : Printout, ∀ t ∈ p.tokens, t.isEnd = false
  := by
  refine ⟨?_, ?_, Reading.existsUnique_shows m.memory, fun p t => Printout.isEnd_of_mem_tokens⟩
  · intro n text m'
    constructor
    · intro hprint
      cases hprinted : Reading.printed m.memory c with
      | ok text' c' =>
        rw [execute_print_of_ok hrun hnext hprinted] at hprint
        cases hprint
        obtain ⟨p, hp, htext⟩ := Reading.printed_eq_ok_iff.mp hprinted
        exact ⟨p, c', hp, htext, rfl⟩
      | error f c' =>
        rw [execute_print_of_error h hrun hnext hprinted] at hprint
        cases hprint
    · rintro ⟨p, c', hp, htext, rfl⟩
      have hprinted := Reading.printed_eq_ok_iff.mpr ⟨p, hp, htext⟩
      apply execute_print_of_ok hrun hnext hprinted
  · intro hnone
    cases hprinted : Reading.printed m.memory c with
    | ok text c' =>
      obtain ⟨p, hp, -⟩ := Reading.printed_eq_ok_iff.mp hprinted
      exact absurd hp (hnone p c')
    | error f c' => exact ⟨f, c', execute_print_of_error h hrun hnext hprinted⟩

/-- The machine that is about to print a text and a number, with a separator after each of them. -/
def printing : Machine :=
  ((ofString "PRINT \"A\",-1/2;\nEND").performAll [.execute 0]).2

/-- The text and the number are printed with seven blanks between them and one at the end. -/
theorem prints_printouts_with_separators :
  ∃ c p c', Cursor.next printing.cursor = .ok (.keyword .printWord) c ∧
    Prints printing.memory c p c' ∧ p.Shows printing.memory "A       -0.5 "
  := by
  have hreach : Reachable (.ofString "PRINT \"A\",-1/2;\nEND") printing := ⟨[.execute 0], rfl⟩
  have hread : printing.phase = .running ∧
      value? (Cursor.next printing.cursor) = some (.keyword .printWord) ∧
      (printing.execute 1).1 = .print "A       -0.5 " := by
    decide +kernel
  have hnext := eq_ok_of_value? hread.2.1
  have hprints := prints_printouts hreach hread.1 hnext
  have hexecute : printing.execute 1 = (.print "A       -0.5 ", (printing.execute 1).2) :=
    Prod.ext hread.2.2 rfl
  obtain ⟨p, c', hp, htext, -⟩ := (hprints.1 0 _ _).mp hexecute
  exact ⟨_, p, c', hnext, hp, htext⟩

end Machine

end LineBasic
