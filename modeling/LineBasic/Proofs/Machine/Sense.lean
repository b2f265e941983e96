import LineBasic.Proofs.Line.Spelling
import LineBasic.Proofs.Machine.Alike

/-!
# A run depends on the sense of its source

All that can be told of a machine from outside, request by request, is the same for two
sources that make the same sense.
-/

namespace LineBasic

open Program
open Source (Places)

variable {s s' : Source}

namespace Machine

/-! ### Running -/

/-- Faults are placed in the same line. -/
theorem Alike.line_eq (hs : s.SameSense s') {m m' : Machine} (h : Alike s s' m m') :
  m.line = m'.line
  := Cursor.lineOf_of_places hs h.cursor h.statement

/-- The same event, and machines that are alike after it. -/
structure SameReport {ε : Type} (s s' : Source) (x x' : ε × Machine) : Prop where
  event_eq : x.1 = x'.1
  alike : Alike s s' x.2 x'.2

/-- Another phase for both machines keeps them alike. -/
theorem Alike.withPhase {m m' : Machine} (h : Alike s s' m m') (p : Phase) :
  Alike s s' { m with phase := p } { m' with phase := p }
  := { h with phase_eq := rfl }

theorem sameReport_fail (hs : s.SameSense s') (f : Fault) {m m' : Machine}
    (h : Alike s s' m m') :
  SameReport s s' (fail f m) (fail f m')
  where
  event_eq := by rw [fail, fail, h.line_eq hs]
  alike := h.withPhase .stopped

theorem sameReport_proceed (hs : s.SameSense s') (n : Nat) {m m' : Machine}
    (h : Alike s s' m m') :
  SameReport s s' (m.proceed n) (m'.proceed n)
  := by
  induction n generalizing m m' with
  | zero => exact ⟨rfl, h⟩
  | succ n ih =>
    have hstep := Execution.runAlike_step h
    rw [proceed, proceed]
    generalize Execution.step m = x at hstep
    generalize Execution.step m' = x' at hstep
    cases hstep with
    | @ok e? e?' m₁ m₁' he h₁ =>
      cases he
      cases e? with
      | none => apply ih h₁
      | some e => exact ⟨rfl, h₁⟩
    | error h₁ => apply sameReport_fail hs _ h₁

/-- Both programs start, or the labels of both are at fault. -/
theorem runAlike_start (hs : s.SameSense s') :
  RunAlike (Alike s s') Eq start start
  := by
  refine RunAlike.bind (runAlike_modify ?_) ?_
  · intro m m' h
    exact {
      h with
      memory_eq := rfl
      loops := .nil
      repeats := .nil
      calls := .nil
      statement := hs }
  · intro _ _ _
    apply (Execution.runAlike_read (Labels.runAlike_build hs)).bind
    intro t t' ht
    apply runAlike_modify
    intro m m' h
    exact { h with labels := ht, phase_eq := rfl }

theorem sameReport_execute (hs : s.SameSense s') (n : Nat) {m m' : Machine}
    (h : Alike s s' m m') :
  SameReport s s' (m.execute n) (m'.execute n)
  := by
  have hstart := runAlike_start hs h
  rw [execute, execute, ← h.phase_eq]
  cases m.phase with
  | ready =>
    simp only
    generalize start m = x at hstart
    generalize start m' = x' at hstart
    cases hstart with
    | ok _ h₁ => apply sameReport_proceed hs n h₁
    | error h₁ => apply sameReport_fail hs _ h₁
  | running => apply sameReport_proceed hs n h
  | warned => exact ⟨rfl, h.withPhase .running⟩
  | awaiting prompt i => exact ⟨rfl, h⟩
  | failing f => exact ⟨rfl, h.withPhase .stopped⟩
  | stopped => exact ⟨rfl, h⟩

/-! ### Requests -/

theorem Alike.enter {m m' : Machine} (h : Alike s s' m m') (line : String) :
  Alike s s' (m.enter line) (m'.enter line)
  := by
  rw [Machine.enter, Machine.enter, ← h.phase_eq]
  split
  · split
    · exact { h with phase_eq := rfl, memory_eq := by rw [h.memory_eq] }
    · apply h.withPhase
  · apply h

theorem Alike.endOfInput (hs : s.SameSense s') {m m' : Machine} (h : Alike s s' m m') :
  Alike s s' m.endOfInput m'.endOfInput
  := by
  rw [Machine.endOfInput, Machine.endOfInput, ← h.phase_eq, ← h.line_eq hs]
  split
  · apply h.withPhase
  · apply h

theorem Alike.interrupt {m m' : Machine} (h : Alike s s' m m') :
  Alike s s' m.interrupt m'.interrupt
  := by
  rw [Machine.interrupt, Machine.interrupt, ← h.phase_eq]
  split
  · apply h
  · apply h.withPhase

theorem sameReport_perform (hs : s.SameSense s') (r : Request) {m m' : Machine}
    (h : Alike s s' m m') :
  SameReport s s' (m.perform r) (m'.perform r)
  := by
  cases r with
  | execute n =>
    have hexec := sameReport_execute hs n h
    exact ⟨congrArg some hexec.event_eq, hexec.alike⟩
  | enter line => exact ⟨rfl, h.enter line⟩
  | endOfInput => exact ⟨rfl, h.endOfInput hs⟩
  | interrupt => exact ⟨rfl, h.interrupt⟩
  | restart => exact ⟨rfl, h.withPhase .ready⟩

/-! ### Views -/

/-- What can be told of a machine after a request: the event that is reported, if any, the
numbers in memory, whether the machine is at rest, and its labels. -/
structure View where
  event? : Option Event
  memory : Memory
  isStopped : Bool
  labels : List String
  deriving DecidableEq

/-- The view of a machine after an event. -/
def view (x : Option Event × Machine) : View :=
  ⟨x.1, x.2.memory, x.2.isStopped, x.2.labels.keys⟩

/-- The views of a machine after each of the requests. -/
def views : List Request → Machine → List View
  | [], _ => []
  | r :: rs, m => view (m.perform r) :: views rs (m.perform r).2

theorem SameReport.view_eq {x x' : Option Event × Machine} (h : SameReport s s' x x') :
  view x = view x'
  := by
  rw [view, view, isStopped, isStopped, h.event_eq, h.alike.memory_eq, h.alike.phase_eq,
    h.alike.labels.keys_eq]

/-- Machines that are alike are viewed alike, whatever is requested. -/
theorem Alike.views_eq (hs : s.SameSense s') (rs : List Request) {m m' : Machine}
    (h : Alike s s' m m') :
  m.views rs = m'.views rs
  := by
  induction rs generalizing m m' with
  | nil => rfl
  | cons r rs ih =>
    have hr := sameReport_perform hs r h
    rw [views, views, hr.view_eq, ih hr.alike]

/-- New machines are alike if their sources make the same sense. -/
theorem alike_ofSource (hs : s.SameSense s') :
  Alike s s' (ofSource s) (ofSource s')
  where
  cursor := ⟨rfl, rfl, hs, hs⟩
  phase_eq := rfl
  labels := Labels.alike_empty
  memory_eq := rfl
  loops := .nil
  repeats := .nil
  calls := .nil
  statement := hs

/-- Whatever is requested of them, new machines are viewed alike if their sources make the same
sense, line by line.  In particular, nothing can be told of the terminators between the lines of
a source, nor of their spelling. -/
theorem views_depend_on_sense :
  (∀ s s' : Source, s.SameSense s' →
    ∀ rs : List Request, (ofSource s).views rs = (ofSource s').views rs) ∧
  ∀ (e e' : Line.Terminator) (ls ls' : List (List Char)), ls ≠ [] →
    (∀ l ∈ ls, ∀ c ∈ l, Line.isEnd c = false) → (∀ l ∈ ls', ∀ c ∈ l, Line.isEnd c = false) →
    List.Forall₂ Line.Respelled ls ls' →
    ∀ rs : List Request,
      (ofSource (.ofList (e.chars.intercalate ls))).views rs =
        (ofSource (.ofList (e'.chars.intercalate ls'))).views rs
  := by
  have hsense : ∀ s s' : Source, s.SameSense s' →
      ∀ rs : List Request, (ofSource s).views rs = (ofSource s').views rs := by
    intro s s' hs rs
    apply (alike_ofSource hs).views_eq hs
  constructor
  · apply hsense
  · intro e e' ls ls' hne hls hls' h
    apply hsense
    apply Line.senses_intercalate e e' hne hls hls' h

/-- A program with other line ends, other blanks, its words in another case and another name
for its variable. -/
theorem views_depend_on_sense_of_loop :
  (ofSource (.ofString "10 INPUT Ab\nIF A=0 THEN GOTO 10")).views
      [.execute 5, .enter "0", .execute 2, .execute 2] =
    (ofSource (.ofString "10  input aX\r\nif a = 0  then goto 10")).views
      [.execute 5, .enter "0", .execute 2, .execute 2]
  := by
  apply views_depend_on_sense.1
  rw [Source.SameSense]
  decide +kernel

end Machine

end LineBasic
