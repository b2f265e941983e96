import LineBasic.Proofs.Machine.Slices
import Mathlib.Logic.Relation

/-!
# Moves

A machine moves by executing one statement, or by a request that executes none.  Whatever is
asked of a machine, it comes to it by moves, also where one request executes many statements.
What every move leaves alone therefore holds of all machines that are reached by requests.
-/

namespace LineBasic.Machine

open Program Execution
open Relation (ReflTransGen)

/-- One machine comes from another one by a statement, by a statement that ends in a fault, or by
a request that executes no statement. -/
inductive Move : Machine → Machine → Prop
  | statement {m m' : Machine} {e? : Option Event} (hrun : m.phase = .running)
    (h : step m = .ok e? m') : Move m m'
  | fault {m m' : Machine} {f : Fault} (hrun : m.phase = .running) (h : step m = .error f m') :
    Move m { m' with phase := .stopped }
  | request {m : Machine} (r : Request) (hr : ∀ n, r = .execute n → n = 0) :
    Move m (m.perform r).2

/-! ### Requests are made of moves -/

theorem moves_proceed {m : Machine} (h : m.phase = .running) (n : Nat) :
  ReflTransGen Move m (m.proceed n).2
  := by
  induction n generalizing m with
  | zero => apply ReflTransGen.refl
  | succ n ih =>
    rw [proceed]
    cases hstep : step m with
    | ok e? m' =>
      have hmove := Move.statement h hstep
      cases e? with
      | none => apply ReflTransGen.head hmove (ih ((phase_of_step hstep).trans h))
      | some e => apply ReflTransGen.single hmove
    | error f m' => apply ReflTransGen.single (Move.fault h hstep)

/-- An execution that executes no statement comes first. -/
theorem moves_execute (n : Nat) (m : Machine) :
  ReflTransGen Move m (m.execute n).2
  := by
  have hfirst : Move m (m.execute 0).2 := by
    apply Move.request (.execute 0)
    rintro _ ⟨⟩
    rfl
  rw [execute] at hfirst ⊢
  split at hfirst
  · split at hfirst
    · next hstart => apply ReflTransGen.head hfirst (moves_proceed (phase_of_start hstart) n)
    · apply ReflTransGen.single hfirst
  · next hrun => apply moves_proceed hrun
  all_goals apply ReflTransGen.single hfirst

theorem moves_perform (r : Request) (m : Machine) :
  ReflTransGen Move m (m.perform r).2
  := by
  cases r with
  | execute n => apply moves_execute
  | enter | endOfInput | interrupt | restart =>
    apply ReflTransGen.single
    apply Move.request
    intro n hn
    cases hn

theorem moves_performAll (rs : List Request) (m : Machine) :
  ReflTransGen Move m (m.performAll rs).2
  := by
  induction rs generalizing m with
  | nil => apply ReflTransGen.refl
  | cons r rs ih => apply (moves_perform r m).trans (ih _)

/-- Requests lead from the source to the machine. -/
def Reachable (s : Source) (m : Machine) : Prop :=
  ∃ rs, m = ((ofSource s).performAll rs).2

theorem Reachable.moves {s : Source} {m : Machine} (h : Reachable s m) :
  ReflTransGen Move (ofSource s) m
  := by
  obtain ⟨rs, rfl⟩ := h
  apply moves_performAll

/-! ### What a move changes -/

variable {m m' : Machine}

/-- What a step or a start leaves behind comes in another phase, or else nothing but the phase
and memory is changed. -/
inductive Moved (m : Machine) : Machine → Prop
  | step (p : Phase) : Moved m { left (step m) with phase := p }
  | start (p : Phase) : Moved m { left (start m) with phase := p }
  | resume (p : Phase) (v : Memory) : Moved m { m with phase := p, memory := v }

theorem moved_execute (m : Machine) :
  Moved m (m.execute 0).2
  := by
  rw [execute]
  split
  · split
    · next m' h =>
      have hstart := Moved.start (m := m) m'.phase
      rw [h] at hstart
      apply hstart
    · next h =>
      have hstart := Moved.start (m := m) .stopped
      rw [h] at hstart
      apply hstart
  all_goals exact .resume _ m.memory

theorem moved_of_move (h : Move m m') :
  Moved m m'
  := by
  cases h with
  | statement _ h =>
    have hstep := Moved.step (m := m) m'.phase
    rw [h] at hstep
    apply hstep
  | fault _ h =>
    have hstep := Moved.step (m := m) .stopped
    rw [h] at hstep
    apply hstep
  | request r hr =>
    cases r with
    | execute n =>
      obtain rfl := hr n rfl
      apply moved_execute
    | enter line =>
      simp only [perform, enter]
      repeat' split
      all_goals exact .resume _ _
    | endOfInput =>
      simp only [perform, endOfInput]
      split
      all_goals exact .resume _ m.memory
    | interrupt =>
      simp only [perform, interrupt]
      split
      all_goals exact .resume _ m.memory
    | restart => exact .resume _ m.memory

/-! ### Invariants -/

/-- A property that steps and starts leave alone, and that does not depend on the phase or on
memory. -/
structure Invariant (I : Machine → Prop) : Prop where
  step : ∀ m, I m → I (left (step m))
  start : ∀ m, I m → I (left (start m))
  resume : ∀ m p v, I m → I { m with phase := p, memory := v }

variable {I : Machine → Prop}

/-- Invariants are left alone by moves. -/
theorem Invariant.move (hI : Invariant I) (h : Move m m') (hm : I m) :
  I m'
  := by
  obtain ⟨p⟩ | ⟨p⟩ | ⟨p, v⟩ := moved_of_move h
  · apply hI.resume _ _ _ (hI.step m hm)
  · apply hI.resume _ _ _ (hI.start m hm)
  · apply hI.resume _ _ _ hm

theorem Invariant.moves (hI : Invariant I) (h : ReflTransGen Move m m') (hm : I m) :
  I m'
  := by
  induction h with
  | refl => apply hm
  | tail _ hmove ih => apply hI.move hmove ih

/-- Invariants are left alone by requests. -/
theorem Invariant.performAll (hI : Invariant I) (hm : I m) (rs : List Request) :
  I (m.performAll rs).2
  := hI.moves (moves_performAll rs m) hm

end LineBasic.Machine
