import LineBasic.Proofs.Labels
import LineBasic.Proofs.Machine.Move

/-!
# Starting over

A machine that is restarted comes to the same events as one that has never run.  What an
earlier run has left behind in it is either replaced when the program starts, or is the same
for every run: the labels are always those of the source, unless there are none.
-/

namespace LineBasic

open Program

namespace Machine

open Execution

/-- The labels of a machine are those of its source, unless there are none. -/
def OwnLabels (m : Machine) : Prop :=
  m.labels = .empty ∨ ∃ c, Labels.build m.cursor = .ok m.labels c

/-- Own labels stay own labels in the same program. -/
theorem OwnLabels.of_sameProgram {m m' : Machine} (hm : OwnLabels m) (h : SameProgram m m') :
  OwnLabels m'
  := by
  rw [OwnLabels, h.labels_eq, Labels.build_of_sameSource h.source_eq]
  apply hm

/-! ### Starting a program -/

/-- The machine as it is started, before its labels are noted. -/
def cleared (m : Machine) : Machine :=
  { m with memory := .zero, loops := .empty, repeats := .empty, calls := .empty, statement := 0 }

theorem start_of_build_eq_ok {m : Machine} {t : Labels} {c : Cursor}
    (h : Labels.build m.cursor = .ok t c) :
  start m = .ok () { cursor := { source := m.cursor.source }, phase := .running, labels := t }
  := by
  have hread := read_of_ok (m := m.cleared) h
  rw [Labels.eq_of_build_eq_ok h] at hread
  rw [start, bind_modify]
  apply bind_of_ok hread

theorem start_of_build_eq_error {m : Machine} {f : Fault} {c : Cursor}
    (h : Labels.build m.cursor = .error f c) :
  start m = .error f { cursor := c, phase := m.phase, labels := m.labels }
  := by
  have hread := read_of_error (m := m.cleared) h
  rw [start, bind_modify]
  apply bind_of_error hread

/-- Machines with the same source that are both about to start, and whose labels are their
own, start alike: if the labels of the source are at fault, then neither has any. -/
theorem execute_of_ready {m m' : Machine} (hm : m.phase = .ready) (hm' : m'.phase = .ready)
    (hs : Cursor.SameSource m.cursor m'.cursor) (h : OwnLabels m) (h' : OwnLabels m') (n : Nat) :
  m'.execute n = m.execute n
  := by
  have hbuild := Labels.build_of_sameSource hs
  rw [execute, execute, hm, hm']
  simp only
  cases hb : Labels.build m.cursor with
  | ok t c =>
    rw [hb] at hbuild
    rw [start_of_build_eq_ok hb, start_of_build_eq_ok hbuild, hs]
  | error f c =>
    rw [hb] at hbuild
    have hnone : ∀ {m₁ : Machine}, OwnLabels m₁ → Labels.build m₁.cursor = .error f c →
        m₁.labels = .empty := by
      intro m₁ hm₁ herr
      rcases hm₁ with hempty | ⟨c₁, hok⟩
      · apply hempty
      · rw [herr] at hok
        cases hok
    rw [start_of_build_eq_error hb, start_of_build_eq_error hbuild, hm, hm', hnone h hb,
      hnone h' hbuild]

/-! ### Reachable machines -/

/-- A machine of a source: it has this source and no labels but its own. -/
structure Of (s : Source) (m : Machine) : Prop where
  source_eq : m.cursor.source = s
  own : OwnLabels m

theorem of_ofSource (s : Source) :
  Of s (ofSource s)
  where
  source_eq := rfl
  own := .inl rfl

/-- What stays in the program of a machine stays a machine of its source. -/
theorem Of.of_sameProgram {s : Source} {m m' : Machine} (hm : Of s m) (h : SameProgram m m') :
  Of s m'
  where
  source_eq := h.source_eq.trans hm.source_eq
  own := hm.own.of_sameProgram h

theorem Of.of_eq {s : Source} {m m' : Machine} (hm : Of s m) (hc : m'.cursor = m.cursor)
    (hl : m'.labels = m.labels) :
  Of s m'
  := by
  apply hm.of_sameProgram
  constructor
  · rw [hc]
  · apply hl

/-- Being a machine of a source is an invariant. -/
theorem invariant_of (s : Source) :
  Invariant (Of s)
  where
  step m hm := hm.of_sameProgram (sameProgram_step m)
  start m hm := by
    cases hb : Labels.build m.cursor with
    | ok t c =>
      rw [start_of_build_eq_ok hb]
      have hagain : Labels.build { source := m.cursor.source } = Labels.build m.cursor :=
        Labels.build_of_sameSource rfl
      exact ⟨hm.source_eq, .inr ⟨c, hagain.trans hb⟩⟩
    | error f c =>
      rw [start_of_build_eq_error hb]
      apply hm.of_sameProgram
      exact ⟨Labels.keeps_sameSource_build.of_error hb, rfl⟩
  resume _ _ _ hm := hm.of_eq rfl rfl

/-- All machines that are reached by requests are machines of the same source. -/
theorem Of.performAll {s : Source} {m : Machine} (hm : Of s m) (rs : List Request) :
  Of s (m.performAll rs).2
  := (invariant_of s).performAll hm rs

/-! ### Restarted machines -/

/-- A machine that is about to start or has stopped. -/
def Idle (m : Machine) : Prop :=
  m.phase = .ready ∨ m.phase = .stopped

/-- An idle machine asks for nothing, and takes no answer. -/
theorem Idle.enter {m : Machine} (h : Idle m) (line : String) :
  m.enter line = m
  := by
  rcases h with hp | hp
  all_goals rw [Machine.enter, hp]

theorem Idle.endOfInput {m : Machine} (h : Idle m) :
  m.endOfInput = m
  := by
  rcases h with hp | hp
  all_goals rw [Machine.endOfInput, hp]

theorem Idle.interrupt {m : Machine} (h : Idle m) :
  m.interrupt = { m with phase := .stopped }
  := by
  rcases h with hp | hp
  all_goals rw [Machine.interrupt, hp]

/-- Two idle machines of one source in the same phase. -/
structure Idling (s : Source) (m m' : Machine) : Prop where
  left : Of s m
  right : Of s m'
  phase_eq : m'.phase = m.phase
  idle : Idle m

theorem Idling.idle_right {s : Source} {m m' : Machine} (h : Idling s m m') :
  Idle m'
  := by
  rw [Idle, h.phase_eq]
  apply h.idle

/-- Two idle machines go on to be idle in the same way. -/
theorem Idling.moved {s : Source} {m m' : Machine} (h : Idling s m m') {p : Phase}
    (hp : p = .ready ∨ p = .stopped) :
  Idling s { m with phase := p } { m' with phase := p }
  where
  left := h.left.of_eq rfl rfl
  right := h.right.of_eq rfl rfl
  phase_eq := rfl
  idle := hp

/-- Executing makes two machines that are about to start equal. -/
theorem Idling.execute_of_ready {s : Source} {m m' : Machine} (h : Idling s m m')
    (hm : m.phase = .ready) (n : Nat) :
  m'.execute n = m.execute n
  := by
  apply Machine.execute_of_ready hm (h.phase_eq.trans hm) _ h.left.own h.right.own
  apply h.right.source_eq.trans h.left.source_eq.symm

/-- No request tells two idle machines apart, and afterwards they are idle or equal. -/
theorem Idling.perform {s : Source} {m m' : Machine} (h : Idling s m m') (r : Request) :
  (m'.perform r).1 = (m.perform r).1 ∧
    ((m'.perform r).2 = (m.perform r).2 ∨ Idling s (m.perform r).2 (m'.perform r).2)
  := by
  cases r with
  | execute n =>
    rcases h.idle with hm | hm
    · have heq := h.execute_of_ready hm n
      rw [Machine.perform, Machine.perform, heq]
      exact ⟨rfl, .inl rfl⟩
    · rw [Machine.perform, Machine.perform, execute, execute, hm, h.phase_eq, hm]
      exact ⟨rfl, .inr h⟩
  | enter line =>
    rw [Machine.perform, Machine.perform, h.idle.enter, h.idle_right.enter]
    exact ⟨rfl, .inr h⟩
  | endOfInput =>
    rw [Machine.perform, Machine.perform, h.idle.endOfInput, h.idle_right.endOfInput]
    exact ⟨rfl, .inr h⟩
  | interrupt =>
    rw [Machine.perform, Machine.perform, h.idle.interrupt, h.idle_right.interrupt]
    exact ⟨rfl, .inr (h.moved (.inr rfl))⟩
  | restart => exact ⟨rfl, .inr (h.moved (.inl rfl))⟩

/-- No sequence of requests tells two idle machines apart. -/
theorem Idling.performAll {s : Source} {m m' : Machine} (h : Idling s m m')
    (rs : List Request) :
  (m'.performAll rs).1 = (m.performAll rs).1 ∧
    ((m'.performAll rs).2 = (m.performAll rs).2 ∨
      Idling s (m.performAll rs).2 (m'.performAll rs).2)
  := by
  induction rs generalizing m m' with
  | nil => exact ⟨rfl, .inr h⟩
  | cons r rs ih =>
    simp only [Machine.performAll]
    obtain ⟨hevent, heq | hnext⟩ := h.perform r
    · rw [hevent, heq]
      exact ⟨rfl, .inl rfl⟩
    · obtain ⟨hevents, hrest⟩ := ih hnext
      rw [hevent, hevents]
      exact ⟨rfl, hrest⟩

/-- Requests after requests. -/
theorem performAll_append (rs rs' : List Request) (m : Machine) :
  (m.performAll (rs ++ rs')).2 = ((m.performAll rs).2.performAll rs').2
  := by
  induction rs generalizing m with
  | nil => rfl
  | cons r rs ih => apply ih

/-- Two idle machines are equal once a request has started the program. -/
theorem Idling.performAll_of_ready {s : Source} {m m' : Machine} (h : Idling s m m')
    {before : List Request} (hready : (m.performAll before).2.phase = .ready) (n : Nat)
    (after : List Request) :
  (m'.performAll (before ++ .execute n :: after)).2 =
    (m.performAll (before ++ .execute n :: after)).2
  := by
  rw [performAll_append, performAll_append]
  obtain ⟨-, heq | hidle⟩ := h.performAll before
  · rw [heq]
  · simp only [Machine.performAll, Machine.perform, hidle.execute_of_ready hready n]

/-- A machine that is restarted after earlier requests. -/
def restarted (s : Source) (earlier : List Request) : Machine :=
  ((ofSource s).performAll earlier).2.restart

theorem idling_restarted (s : Source) (earlier : List Request) :
  Idling s (ofSource s) (restarted s earlier)
  where
  left := of_ofSource s
  right := ((of_ofSource s).performAll earlier).of_eq rfl rfl
  phase_eq := rfl
  idle := .inl rfl

/-- Whatever a machine has been through, once it is restarted it reports what a new machine
with its source reports, is at rest when that one is, and is equal to it from the request on
that starts the program. -/
theorem restart_forgets (s : Source) (earlier : List Request) :
  (∀ later : List Request,
    ((restarted s earlier).performAll later).1 = ((ofSource s).performAll later).1 ∧
    ((restarted s earlier).performAll later).2.isStopped =
      ((ofSource s).performAll later).2.isStopped) ∧
  ∀ (before : List Request) (n : Nat) (after : List Request),
    ((ofSource s).performAll before).2.phase = .ready →
    ((restarted s earlier).performAll (before ++ .execute n :: after)).2 =
      ((ofSource s).performAll (before ++ .execute n :: after)).2
  := by
  have hidle := idling_restarted s earlier
  constructor
  · intro later
    obtain ⟨hevents, heq | hrest⟩ := hidle.performAll later
    · rw [heq]
      exact ⟨hevents, rfl⟩
    · constructor
      · apply hevents
      · rw [isStopped, isStopped, hrest.phase_eq]
  · intro before n after hready
    apply hidle.performAll_of_ready hready

/-- A program that has been left while it asks for a number inside a loop, and that is
interrupted and restarted once more before it starts. -/
theorem restart_forgets_request :
  ((ofString "FOR A = 1 TO 9 INPUT B NEXT").performAll [.execute 9]).1 = [.input "? "] ∧
  ((restarted (.ofString "FOR A = 1 TO 9 INPUT B NEXT") [.execute 9]).performAll
      ([.interrupt, .restart] ++ .execute 1 :: [.enter "7", .execute 5])).2 =
    ((ofSource (.ofString "FOR A = 1 TO 9 INPUT B NEXT")).performAll
      ([.interrupt, .restart] ++ .execute 1 :: [.enter "7", .execute 5])).2
  := by
  constructor
  · decide +kernel
  · apply (restart_forgets _ [.execute 9]).2
    decide +kernel

end Machine

end LineBasic
