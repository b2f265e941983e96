import LineBasic.Proofs.Machine.Boundary
import LineBasic.Proofs.Machine.History
import LineBasic.Proofs.Machine.Jump
import LineBasic.Proofs.Machine.Order
import LineBasic.Proofs.Machine.Straight

/-!
# The lines of faults

A fault that is reported is that of a statement, of the labels of the source, or of input that
has ended where a statement waits for it.  In each case it names the line in which this statement
starts, or the line of the label, and nothing has been read after this line.
-/

namespace LineBasic

open Program
open Line (Joined following terminators)
open Cursor (InLine)
open Reading (Stage)

namespace Machine

open Execution

variable {s : Source} {m m' : Machine} {f : Fault} {n : Nat}

/-- The offset of the first character of the next statement. -/
def head (m : Machine) : Nat :=
  m.cursor.skipBlanks.pos

/-- The machine reports the fault on account of what starts at an offset: the first line whose
label is at fault, a statement that ends in the fault, or one that asks for a number and gets
none.  The fault of a statement is still to be placed in a line. -/
inductive FailsAt (s : Source) (n : Nat) (m : Machine) : Fault → Nat → Prop
  | label {f : Fault} {b : Nat} (hready : m.phase = .ready) (hb : s.Visited b)
    (hf : s.Offends b f) (hfirst : ∀ b' < b, ∀ f', s.Visited b' → ¬ s.Offends b' f') :
    FailsAt s n m f b
  | statement {f : Fault} {k l : Nat} {m₁ m₂ : Machine} (hk : k < n)
    (hrun : m.execute k = (.running, m₁)) (hstep : step m₁ = .error f m₂) :
    FailsAt s n m (f.inLine l) m₁.head
  | request {l : Nat} {prompt : String} {m₀ m₁ : Machine} (hreach : Reachable s m₀)
    (hstep : step m₀ = .ok (some (.input prompt)) m₁) (hend : m = m₁.endOfInput) :
    FailsAt s n m ((Fault.of .inputUnreadable).inLine l) m₀.head

/-- The fault is in the line that holds an offset, and so is the token that has been read last,
by the number of terminators before them. -/
structure Placed (s : Source) (a : Nat) (f : Fault) (c : Cursor) : Prop where
  line?_eq : f.line? = some (terminators s.chars a + 1)
  start : terminators s.chars c.start = terminators s.chars a

/-- A fault is placed in the line of the statement that was begun last. -/
theorem placed_of_joined {a : Nat} (hs : m.cursor.source = s) (hf : f.line? = none)
    (hstatement : terminators s.chars m.statement = terminators s.chars a)
    (hstart : Joined s.chars a m.cursor.start) :
  f.orInLine m.line = f.inLine m.line ∧ Placed s a (f.orInLine m.line) m.cursor
  := by
  constructor
  · rw [Fault.orInLine, hf]
    rfl
  · constructor
    · rw [Fault.orInLine, hf, line, Cursor.lineOf_eq, hs, hstatement]
      rfl
    · apply hstart.terminators_eq

/-! ### Statements -/

/-- A statement that ends in a fault has not left its line, and the fault is not yet placed. -/
theorem confined_of_step (hm : Settled s m) (h : step m = .error f m') :
  f.line? = none ∧ terminators s.chars m'.statement = terminators s.chars m.head ∧
    Joined s.chars m.head m'.cursor.start
  := by
  have hsource := hm.cursor.source_eq
  cases hnext : Cursor.next m.cursor with
  | ok t c =>
    have hc := Cursor.inLine_of_next hsource hm.cursor.within hnext
    have hstatement := statement_of_effect (effect_step hnext)
    have hconfined := (orderly_statement t).confined
      (m := { m with cursor := c, statement := c.start }) fun _ => hc
    rw [← step_of_next_ok hnext, h] at hconfined
    rw [h] at hstatement
    rw [head, ← Cursor.start_of_next hnext]
    obtain ⟨hf, q, hq, hc'⟩ := hconfined
    exact ⟨hf, congrArg _ hstatement, hc'.start hq⟩
  | error f' c =>
    rw [step_of_next_error hnext] at h
    cases h
    obtain ⟨-, rfl, rfl⟩ := Cursor.next_eq_error_iff.mp hnext
    have hblanks := Cursor.joined_skipBlanks m.cursor
    rw [hsource] at hblanks
    exact ⟨rfl, hblanks.terminators_eq.symm, .refl _ _⟩

/-- The fault of a statement names the line of this statement. -/
theorem placed_of_step (hm : Settled s m) (h : step m = .error f m') :
  f.orInLine m'.line = f.inLine m'.line ∧ Placed s m.head (f.orInLine m'.line) m'.cursor
  := by
  have hsource := (sameProgram_step m).source_eq.trans hm.cursor.source_eq
  rw [h] at hsource
  obtain ⟨hf, hstatement, hstart⟩ := confined_of_step hm h
  apply placed_of_joined hsource hf hstatement hstart

/-- A statement that does not jump goes on in its line, or where the next one follows. -/
theorem stays_of_step {e? : Option Event} (hm : Settled s m) (h : step m = .ok e? m')
    (hjumps : ¬ m.Jumps) :
  Joined s.chars m.head m'.cursor.pos ∨ m'.cursor.pos = following s.chars m.head
  := by
  cases hnext : Cursor.next m.cursor with
  | ok t c =>
    have hstraight := straight_of_step hm.cursor.source_eq hm.cursor.within hnext h hjumps
    obtain ⟨-, p, hp⟩ := hstraight
    rw [head, ← Cursor.start_of_next hnext]
    apply hp.pos.imp_right And.right
  | error f c =>
    rw [step_of_next_error hnext] at h
    cases h

/-! ### Input that has ended -/

/-- A machine that waits for input has not left the line of the statement that has asked. -/
theorem placed_of_request {prompt : String} (hm : Settled s m)
    (h : step m = .ok (some (.input prompt)) m') :
  (Fault.of .inputUnreadable).orInLine m'.line = (Fault.of .inputUnreadable).inLine m'.line ∧
    Placed s m.head ((Fault.of .inputUnreadable).orInLine m'.line) m'.cursor
  := by
  obtain ⟨c, c', i, hnext, hrequest, rfl⟩ := exists_request_of_step h
  have hc := Cursor.inLine_of_next hm.cursor.source_eq hm.cursor.within hnext
  obtain ⟨_, rfl, hc'⟩ := Reading.orderly_request.of_ok hc hrequest
  rw [head, ← Cursor.start_of_next hnext]
  exact placed_of_joined hc'.source_eq rfl rfl (hc'.start Stage.noConfusion)

/-! ### Labels -/

/-- The fault of the labels of a source names the line of the label. -/
theorem placed_of_build {c c' : Cursor} {b : Nat} (hs : c.source = s)
    (h : Labels.build c = .error f c') (hf : s.Offends b f) :
  Placed s b f c'
  := by
  have hsource : c'.source = s := (Labels.keeps_sameSource_build.of_error h).trans hs
  have hline := Labels.line?_of_build_eq_error h
  have hb : f.line? = some (terminators s.chars b + 1) := by
    have hcursor : (s.cursor b).lineOf b = terminators s.chars b + 1 := Cursor.lineOf_eq _ b
    rw [← hcursor]
    cases hf with
    | unclosed | repeated => rfl
  refine ⟨hb, ?_⟩
  rw [hb, Cursor.lineOf_eq, hsource] at hline
  exact (Nat.succ.inj (Option.some.inj hline)).symm

/-! ### Faults that are reported -/

/-- A fault that no statement has ended in is that of the labels or of input that has ended. -/
theorem failsAt_of_execute_zero (h : Reachable s m) (hf : m.execute 0 = (.fault f, m')) :
  ∃ a, FailsAt s n m f a ∧ Placed s a f m'.cursor
  := by
  have hsource := h.settled.cursor.source_eq
  cases hphase : m.phase with
  | ready =>
    rw [execute, hphase] at hf
    simp only at hf
    cases hb : Labels.build m.cursor with
    | ok t c =>
      rw [start_of_build_eq_ok hb] at hf
      cases hf
    | error f₀ c =>
      have hverdict := Labels.verdict_build m.cursor
      rw [start_of_build_eq_error hb] at hf
      simp only [fail, Labels.orInLine_of_build_eq_error hb] at hf
      cases hf
      rw [hb, hsource] at hverdict
      obtain ⟨b, hvisited, hoffends, hfirst⟩ := hverdict
      exact ⟨b, .label hphase hvisited hoffends hfirst, placed_of_build hsource hb hoffends⟩
  | failing f₀ =>
    rw [execute, hphase] at hf
    cases hf
    obtain ⟨m₁, prompt, i, ⟨m₀, hreach, -, hstep⟩, hasked, hend⟩ := h.origin.2 f hphase
    obtain ⟨hplaced, hline⟩ := placed_of_request hreach.settled hstep
    have hf : f = (Fault.of .inputUnreadable).orInLine m₁.line := by
      rw [hend, endOfInput, hasked] at hphase
      cases hphase
      rfl
    have hcursor : m.cursor = m₁.cursor := by
      rw [hend, endOfInput, hasked]
    rw [hf]
    refine ⟨m₀.head, ?_, ?_⟩
    · rw [hplaced]
      exact .request hreach hstep hend
    · change Placed s m₀.head _ m.cursor
      rw [hcursor]
      exact hline
  | running | warned | awaiting | stopped =>
    rw [execute, hphase] at hf
    cases hf

/-- A fault that is reported has come from what it is reported on account of, and names its
line. -/
theorem failsAt_of_execute (h : Reachable s m) (hf : m.execute n = (.fault f, m')) :
  ∃ a, FailsAt s n m f a ∧ Placed s a f m'.cursor
  := by
  rcases exists_ends hf Event.noConfusion with ⟨k, hk, m₁, hrun, -, hends⟩ | hzero
  · cases hends with
    | event hstep =>
      have hreports := reports_of_step hstep
      cases hreports
    | @fault m₂ f₀ hstep =>
      obtain ⟨hplaced, hline⟩ := placed_of_step (h.execute hrun).settled hstep
      refine ⟨m₁.head, ?_, hline⟩
      rw [hplaced]
      exact .statement hk hrun hstep
  · apply failsAt_of_execute_zero h hzero

/-- A fault that is reported names the line of the statement that has ended in it, of the label
that is at fault, or of the statement that waits for input: one more than there are terminators
before it.  The token that has been read last is in the same line.  Every statement is executed
in order, so that nothing is read after the end of a line, or of the program, unless this end has
been given back; one that does not jump goes on in its line or where the next one follows. -/
theorem faults_name_their_line (h : Reachable s m) :
  (∀ n f m', m.execute n = (.fault f, m') →
    ∃ a, FailsAt s n m f a ∧ f.line? = some (terminators s.chars a + 1) ∧
      terminators s.chars m'.cursor.start = terminators s.chars a) ∧
  Execution.Orderly .inside step (fun _ _ => True) ∧
  ∀ e? m', step m = .ok e? m' → ¬ m.Jumps →
    Joined s.chars m.head m'.cursor.pos ∨ m'.cursor.pos = following s.chars m.head
  := by
  and_intros
  · intro n f m' hf
    obtain ⟨a, hfails, hline⟩ := failsAt_of_execute (n := n) h hf
    exact ⟨a, hfails, hline.line?_eq, hline.start⟩
  · apply orderly_step
  · intro e? m' hstep hjumps
    apply stays_of_step h.settled hstep hjumps

/-- A program that stops in its third line, which comes after a line that is empty, with the
offset of the statement that divides by zero; and the first statement of it, which goes on in its
line. -/
theorem faults_name_their_line_of_division :
  (∃ m', (ofString "A = 1\r\n\r PRINT A / 0\n").execute 9 =
    (.fault ⟨.divisionByZero, some 3, ""⟩, m') ∧
    ∃ a, FailsAt (.ofString "A = 1\r\n\r PRINT A / 0\n") 9 (ofString "A = 1\r\n\r PRINT A / 0\n")
      ⟨.divisionByZero, some 3, ""⟩ a ∧
      terminators (Source.ofString "A = 1\r\n\r PRINT A / 0\n").chars a = 2) ∧
  ∃ m', step (ofString "A = 1\r\n\r PRINT A / 0\n") = .ok none m' ∧
    (Joined (Source.ofString "A = 1\r\n\r PRINT A / 0\n").chars
        (ofString "A = 1\r\n\r PRINT A / 0\n").head m'.cursor.pos ∨
      m'.cursor.pos = following (Source.ofString "A = 1\r\n\r PRINT A / 0\n").chars
        (ofString "A = 1\r\n\r PRINT A / 0\n").head)
  := by
  have hnew : Reachable (.ofString "A = 1\r\n\r PRINT A / 0\n")
      (ofString "A = 1\r\n\r PRINT A / 0\n") := reachable_ofSource _
  constructor
  · have hevent : ((ofString "A = 1\r\n\r PRINT A / 0\n").execute 9).1 =
        .fault ⟨.divisionByZero, some 3, ""⟩ := by
      decide +kernel
    generalize hx : (ofString "A = 1\r\n\r PRINT A / 0\n").execute 9 = x at hevent
    obtain ⟨_, m'⟩ := x
    obtain rfl := hevent
    obtain ⟨a, hfails, hline, -⟩ := (faults_name_their_line hnew).1 _ _ m' hx
    exact ⟨m', rfl, a, hfails, (Nat.succ.inj (Option.some.inj hline)).symm⟩
  · have hname : value? (Cursor.next (ofString "A = 1\r\n\r PRINT A / 0\n").cursor) =
        some (.name "A") := by
      decide +kernel
    have hjumps : ¬ (ofString "A = 1\r\n\r PRINT A / 0\n").Jumps := by
      intro hjumps
      obtain ⟨k, c, hnext, -⟩ := hjumps.exists_isJump
      rw [hnext] at hname
      cases hname
    have hok : value? (step (ofString "A = 1\r\n\r PRINT A / 0\n")) = some none := by
      decide +kernel
    have hstep := eq_ok_of_value? hok
    exact ⟨_, hstep, (faults_name_their_line hnew).2.2 none _ hstep hjumps⟩

end Machine

end LineBasic
