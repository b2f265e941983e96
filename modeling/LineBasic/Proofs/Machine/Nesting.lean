import LineBasic.Proofs.Machine.Effect
import LineBasic.Proofs.Machine.Restart
import LineBasic.Proofs.Stack

/-!
# Nesting

What `GOSUB`, `FOR` and `REPEAT` push on a stack stays there as long as this stack has no fewer
frames than right after it, whatever else is executed and requested in between.  A `RETURN`,
`NEXT` or `UNTIL` that finds just as many frames therefore finds this one at the top.  No
statement touches a stack that is not its own.
-/

namespace LineBasic

open Program Execution
open Relation (ReflTransGen)

namespace Machine

/-! ### Stacks that belong to statements -/

/-- The next statement starts with a keyword. -/
def Begins (m : Machine) (k : Keyword) : Prop :=
  ∃ c, Cursor.next m.cursor = .ok (.keyword k) c

instance (m : Machine) (k : Keyword) : Decidable (m.Begins k) :=
  match h : Cursor.next m.cursor with
  | .ok t c =>
    if ht : t = .keyword k then
      isTrue ⟨c, ht ▸ h⟩
    else
      isFalse fun ⟨_, hc⟩ => by
        rw [h] at hc
        cases hc
        contradiction
  | .error _ _ =>
    isFalse fun ⟨_, hc⟩ => by
      rw [h] at hc
      cases hc

/-- Every stack is as it was, or has been shifted by a statement to which it belongs. -/
structure Shifted (t : Token) (m m' : Machine) : Prop where
  loops : m'.loops = m.loops ∨
    (t = .keyword .forWord ∨ t = .keyword .nextWord) ∧ m.loops.Shift m'.loops
  repeats : m'.repeats = m.repeats ∨
    (t = .keyword .repeatWord ∨ t = .keyword .untilWord) ∧ m.repeats.Shift m'.repeats
  calls : m'.calls = m.calls ∨
    (t = .keyword .gosubWord ∨ t = .keyword .returnWord) ∧ m.calls.Shift m'.calls

variable {m m' m₁ m₂ : Machine}

/-- A statement shifts no stack but its own. -/
theorem shifted_of_effect {t : Token} {r : EStateM.Result Fault Machine (Option Event)}
    (h : Effect t m r) :
  Shifted t m (left r)
  := by
  cases h with
  | gosub _ hpush => exact ⟨.inl rfl, .inl rfl, .inr ⟨.inl rfl, .pushed hpush⟩⟩
  | back hpop => exact ⟨.inl rfl, .inl rfl, .inr ⟨.inr rfl, .popped hpop⟩⟩
  | enterLoop _ _ hpush => exact ⟨.inr ⟨.inl rfl, .pushed hpush⟩, .inl rfl, .inl rfl⟩
  | leaveLoop _ hpop => exact ⟨.inr ⟨.inr rfl, .popped hpop⟩, .inl rfl, .inl rfl⟩
  | nextTurn _ hpop _ hpush => exact ⟨.inl (Stack.eq_of_pop_of_push hpop hpush), .inl rfl, .inl rfl⟩
  | nextTurnFull _ hpop => exact ⟨.inr ⟨.inr rfl, .popped hpop⟩, .inl rfl, .inl rfl⟩
  | enterRepeat hpush => exact ⟨.inl rfl, .inr ⟨.inl rfl, .pushed hpush⟩, .inl rfl⟩
  | leaveRepeat hpop => exact ⟨.inl rfl, .inr ⟨.inr rfl, .popped hpop⟩, .inl rfl⟩
  | repeatAgain hpop _ _ hpush =>
    exact ⟨.inl rfl, .inl (Stack.eq_of_pop_of_push hpop hpush), .inl rfl⟩
  | untilFault hpop => exact ⟨.inl rfl, .inr ⟨.inr rfl, .popped hpop⟩, .inl rfl⟩
  | repeatAgainFull hpop => exact ⟨.inl rfl, .inr ⟨.inr rfl, .popped hpop⟩, .inl rfl⟩
  | _ => exact ⟨.inl rfl, .inl rfl, .inl rfl⟩

/-- What only the statements of two keywords change is the same after any other statement. -/
private theorem same_of_not_begins {t : Token} {c : Cursor} {k k' : Keyword} {p q : Prop}
    (hnext : Cursor.next m.cursor = .ok t c)
    (h : p ∨ (t = .keyword k ∨ t = .keyword k') ∧ q) (hk : ¬ m.Begins k) (hk' : ¬ m.Begins k') :
  p
  := by
  rcases h with hp | ⟨rfl | rfl, -⟩
  · apply hp
  · exact absurd ⟨c, hnext⟩ hk
  · exact absurd ⟨c, hnext⟩ hk'

/-- A step leaves alone the stacks that do not belong to the statement with which it begins. -/
theorem frame_step (m : Machine) :
  (¬ m.Begins .forWord → ¬ m.Begins .nextWord → (left (step m)).loops = m.loops) ∧
  (¬ m.Begins .repeatWord → ¬ m.Begins .untilWord → (left (step m)).repeats = m.repeats) ∧
  (¬ m.Begins .gosubWord → ¬ m.Begins .returnWord → (left (step m)).calls = m.calls)
  := by
  cases h : Cursor.next m.cursor with
  | error f c =>
    rw [step_of_next_error h]
    exact ⟨fun _ _ => rfl, fun _ _ => rfl, fun _ _ => rfl⟩
  | ok t c =>
    have hshifted := shifted_of_effect (effect_step h)
    and_intros
    · apply same_of_not_begins h hshifted.loops
    · apply same_of_not_begins h hshifted.repeats
    · apply same_of_not_begins h hshifted.calls

/-! ### Moves shift stacks -/

/-- Every stack has been shifted. -/
structure AllShifted (m m' : Machine) : Prop where
  loops : m.loops.Shift m'.loops
  repeats : m.repeats.Shift m'.repeats
  calls : m.calls.Shift m'.calls

/-- Stacks that are the same have been shifted, too. -/
theorem allShifted_of_eq (hl : m'.loops = m.loops) (hr : m'.repeats = m.repeats)
    (hc : m'.calls = m.calls) :
  AllShifted m m'
  := ⟨.same hl, .same hr, .same hc⟩

theorem allShifted_step (m : Machine) :
  AllShifted m (left (step m))
  := by
  cases h : Cursor.next m.cursor with
  | error f c =>
    rw [step_of_next_error h]
    exact allShifted_of_eq rfl rfl rfl
  | ok t c =>
    have hshifted := shifted_of_effect (effect_step h)
    constructor
    · apply hshifted.loops.elim Stack.Shift.same And.right
    · apply hshifted.repeats.elim Stack.Shift.same And.right
    · apply hshifted.calls.elim Stack.Shift.same And.right

/-- Starting clears all stacks. -/
theorem allShifted_start (m : Machine) :
  AllShifted m (left (start m))
  := by
  cases h : Labels.build m.cursor with
  | ok t c =>
    rw [start_of_build_eq_ok h]
    exact ⟨.cleared rfl, .cleared rfl, .cleared rfl⟩
  | error f c =>
    rw [start_of_build_eq_error h]
    exact ⟨.cleared rfl, .cleared rfl, .cleared rfl⟩

theorem allShifted_of_move (h : Move m m') :
  AllShifted m m'
  := by
  obtain ⟨p⟩ | ⟨p⟩ | ⟨p, v⟩ := moved_of_move h
  · have hstep := allShifted_step m
    exact ⟨hstep.loops, hstep.repeats, hstep.calls⟩
  · have hstart := allShifted_start m
    exact ⟨hstart.loops, hstart.repeats, hstart.calls⟩
  · exact allShifted_of_eq rfl rfl rfl

/-! ### The frames below -/

/-- Moves lead from one machine to another one, after each of which the depth is at least what it
was at first. -/
def Above (depth : Machine → Nat) (m : Machine) : Machine → Prop :=
  ReflTransGen (fun m₁ m₂ => Move m₁ m₂ ∧ depth m ≤ depth m₂) m

/-- Moves lead from one machine to another one with the same depth, and never below it. -/
structure Level (depth : Machine → Nat) (m m' : Machine) : Prop where
  above : Above depth m m'
  depth_eq : depth m' = depth m

section Above

variable {role : Stack.Role} {α : Type} {stack : Machine → Stack role α}
  (hstack : ∀ {m m'}, Move m m' → (stack m).Shift (stack m'))

include hstack

/-- The frames that are there at first stay below the frames that are pushed later. -/
theorem suffix_of_above (h : Above (fun m => (stack m).size) m m') :
  (stack m).frames <:+ (stack m').frames
  := by
  induction h with
  | refl => apply List.suffix_refl
  | tail _ hmove ih =>
    apply (hstack hmove.1).suffix ih
    rw [← Stack.size_eq]
    apply hmove.2

/-- At the same depth, the stack is the same. -/
theorem stack_eq_of_level (h : Level (fun m => (stack m).size) m m') :
  stack m' = stack m
  := Stack.eq_of_suffix (suffix_of_above hstack h.above) h.depth_eq

end Above

/-! ### Subroutines -/

/-- The `GOSUB` of the machine `m`, read up to `c`, has led to `m₁` and is matched: a `RETURN` at
this depth goes on after the label of the `GOSUB`, with the stack that the `GOSUB` has found. -/
def ReturnMatches (m m₁ : Machine) (c : Cursor) : Prop :=
  ∃ label c', Cursor.next c = .ok (.number label) c' ∧ m₁.calls.size = m.calls.size + 1 ∧
    ∀ m₂ d, Level (·.calls.size) m₁ m₂ →
      Cursor.next m₂.cursor = .ok (.keyword .returnWord) d →
      step m₂ = .ok none { m₂ with
        cursor := d.jump c'.pos
        calls := m.calls
        statement := d.start }

/-- A `GOSUB` that is executed reads a label and notes the offset after it. -/
theorem calls_of_gosub {c : Cursor} (hnext : Cursor.next m.cursor = .ok (.keyword .gosubWord) c)
    (hstep : step m = .ok none m₁) :
  ∃ label c', Cursor.next c = .ok (.number label) c' ∧ m.calls.push c'.pos = .ok m₁.calls
  := by
  cases (step_eq_iff hnext).mp hstep with
  | gosub h hpush =>
    obtain ⟨label, hlabel, -⟩ := Reading.destination_eq_ok_iff.mp h
    exact ⟨label, _, hlabel, hpush⟩

theorem returnMatches {c : Cursor} (hnext : Cursor.next m.cursor = .ok (.keyword .gosubWord) c)
    (hstep : step m = .ok none m₁) :
  ReturnMatches m m₁ c
  := by
  obtain ⟨label, c', hlabel, hpush⟩ := calls_of_gosub hnext hstep
  use label, c', hlabel, Stack.size_of_push hpush
  intro m₂ d hlevel hreturn
  have hcalls := stack_eq_of_level (fun h => (allShifted_of_move h).calls) hlevel
  apply (step_eq_iff hreturn).mpr
  apply Effect.back
  rw [hcalls]
  apply Stack.pop_of_push hpush

/-! ### Counted loops -/

/-- The `FOR` of the machine `m`, read up to `c`, has led to `m₁` and is matched: a `NEXT` at this
depth counts with the variable of the `FOR`, whatever name follows.  It leaves the loop with the
stack that the `FOR` has found, or goes on after the `FOR` with the stack as it is. -/
def NextMatches (m m₁ : Machine) (c : Cursor) : Prop :=
  ∃ i x y c₁ c₂, Reading.assignment m.memory c = .ok (i, x) c₁ ∧
    Reading.target (m.memory.store i x) c₁ = .ok y c₂ ∧ m₁.loops.size = m.loops.size + 1 ∧
    ∀ m₂ d, Level (·.loops.size) m₁ m₂ → Cursor.next m₂.cursor = .ok (.keyword .nextWord) d →
      (∀ t d', Cursor.next d = .ok t d' → m₂.memory.fetch i + 1.0 > y →
        step m₂ = .ok none { m₂ with
          cursor := Reading.afterName t d'
          memory := m₂.memory.store i (m₂.memory.fetch i + 1.0)
          loops := m.loops
          statement := d.start }) ∧
      (∀ t d', Cursor.next d = .ok t d' → ¬ m₂.memory.fetch i + 1.0 > y →
        step m₂ = .ok none { m₂ with
          cursor := d'.jump c₂.pos
          memory := m₂.memory.store i (m₂.memory.fetch i + 1.0)
          statement := d.start }) ∧
      ∀ f d', Cursor.next d = .error f d' →
        step m₂ = .error f { m₂ with cursor := d', statement := d.start }

/-- A `FOR` that is executed notes its variable, the number it counts to and the offset after
it. -/
theorem loops_of_for {c : Cursor} (hnext : Cursor.next m.cursor = .ok (.keyword .forWord) c)
    (hstep : step m = .ok none m₁) :
  ∃ i x y c₁ c₂, Reading.assignment m.memory c = .ok (i, x) c₁ ∧
    Reading.target (m.memory.store i x) c₁ = .ok y c₂ ∧
    m.loops.push ⟨i, y, c₂.pos⟩ = .ok m₁.loops
  := by
  cases (step_eq_iff hnext).mp hstep with
  | enterLoop h htarget hpush => exact ⟨_, _, _, _, _, h, htarget, hpush⟩

theorem nextMatches {c : Cursor} (hnext : Cursor.next m.cursor = .ok (.keyword .forWord) c)
    (hstep : step m = .ok none m₁) :
  NextMatches m m₁ c
  := by
  obtain ⟨i, x, y, c₁, c₂, h, htarget, hpush⟩ := loops_of_for hnext hstep
  use i, x, y, c₁, c₂, h, htarget, Stack.size_of_push hpush
  intro m₂ d hlevel hnext₂
  have hloops := stack_eq_of_level (fun h => (allShifted_of_move h).loops) hlevel
  have hpop : m₂.loops.pop = .ok (⟨i, y, c₂.pos⟩, m.loops) := by
    rw [hloops]
    apply Stack.pop_of_push hpush
  have hagain : m.loops.push ⟨i, y, c₂.pos⟩ = .ok m₂.loops := by
    rw [hloops]
    apply hpush
  and_intros
  · intro t d' hname hx
    have hname' := Reading.loopName_of_next hname
    apply (step_eq_iff hnext₂).mpr
    exact Effect.leaveLoop (m := { m₂ with cursor := d, statement := d.start }) hname' hpop hx
  · intro t d' hname hx
    have hname' := Reading.loopName_of_next hname
    rw [← Reading.jump_afterName t]
    apply (step_eq_iff hnext₂).mpr
    exact Effect.nextTurn (m := { m₂ with cursor := d, statement := d.start }) hname' hpop hx hagain
  · intro f d' hname
    apply (step_eq_iff hnext₂).mpr
    exact Effect.loopNameFault (Reading.loopName_of_error hname)

/-! ### Repeated loops -/

/-- The `REPEAT` of the machine `m`, read up to `c`, has led to `m₁` and is matched: an `UNTIL` at
this depth leaves the loop with the stack that the `REPEAT` has found, or goes on after the
`REPEAT` with the stack as it is.  It leaves the loop, too, if its condition is at fault. -/
def UntilMatches (m m₁ : Machine) (c : Cursor) : Prop :=
  m₁.repeats.size = m.repeats.size + 1 ∧
    ∀ m₂ d, Level (·.repeats.size) m₁ m₂ →
      Cursor.next m₂.cursor = .ok (.keyword .untilWord) d →
      (∀ x d', Reading.expression m₂.memory d = .ok x d' → (x != 0.0) = true →
        step m₂ = .ok none { m₂ with
          cursor := d'
          repeats := m.repeats
          statement := d.start }) ∧
      (∀ x d', Reading.expression m₂.memory d = .ok x d' → (x != 0.0) = false →
        step m₂ = .ok none { m₂ with cursor := d'.jump c.pos, statement := d.start }) ∧
      ∀ f d', Reading.expression m₂.memory d = .error f d' →
        step m₂ = .error f { m₂ with
          cursor := d'
          repeats := m.repeats
          statement := d.start }

/-- A `REPEAT` that is executed notes the offset after it. -/
theorem repeats_of_repeat {c : Cursor}
    (hnext : Cursor.next m.cursor = .ok (.keyword .repeatWord) c) (hstep : step m = .ok none m₁) :
  m.repeats.push c.pos = .ok m₁.repeats
  := by
  cases (step_eq_iff hnext).mp hstep with
  | enterRepeat hpush => apply hpush

theorem untilMatches {c : Cursor}
    (hnext : Cursor.next m.cursor = .ok (.keyword .repeatWord) c) (hstep : step m = .ok none m₁) :
  UntilMatches m m₁ c
  := by
  have hpush := repeats_of_repeat hnext hstep
  use Stack.size_of_push hpush
  intro m₂ d hlevel huntil
  have hrepeats := stack_eq_of_level (fun h => (allShifted_of_move h).repeats) hlevel
  have hpop : m₂.repeats.pop = .ok (c.pos, m.repeats) := by
    rw [hrepeats]
    apply Stack.pop_of_push hpush
  have hagain : m.repeats.push c.pos = .ok m₂.repeats := by
    rw [hrepeats]
    apply hpush
  and_intros
  · intro x d' h hx
    apply (step_eq_iff huntil).mpr
    exact Effect.leaveRepeat hpop h hx
  · intro x d' h hx
    apply (step_eq_iff huntil).mpr
    exact Effect.repeatAgain hpop h hx hagain
  · intro f d' h
    apply (step_eq_iff huntil).mpr
    exact Effect.untilFault hpop h

/-! ### All stacks -/

/-- Whatever is asked of a machine, it comes to it by moves.  While moves do not take a stack below
the depth that it has, the frames that are there stay as they are at the bottom.  A `RETURN`,
`NEXT` or `UNTIL` at the depth that a `GOSUB`, `FOR` or `REPEAT` has led to therefore matches it,
and no statement but these changes a stack, each of them only its own. -/
theorem stacks_nest (m : Machine) :
  (∀ rs, ReflTransGen Move m (m.performAll rs).2) ∧
  (∀ m',
    (Above (·.loops.size) m m' → m.loops.frames <:+ m'.loops.frames) ∧
    (Above (·.repeats.size) m m' → m.repeats.frames <:+ m'.repeats.frames) ∧
    (Above (·.calls.size) m m' → m.calls.frames <:+ m'.calls.frames)) ∧
  (∀ m₁ c, step m = .ok none m₁ →
    (Cursor.next m.cursor = .ok (.keyword .gosubWord) c → ReturnMatches m m₁ c) ∧
    (Cursor.next m.cursor = .ok (.keyword .forWord) c → NextMatches m m₁ c) ∧
    (Cursor.next m.cursor = .ok (.keyword .repeatWord) c → UntilMatches m m₁ c)) ∧
  (¬ m.Begins .forWord → ¬ m.Begins .nextWord → (left (step m)).loops = m.loops) ∧
  (¬ m.Begins .repeatWord → ¬ m.Begins .untilWord → (left (step m)).repeats = m.repeats) ∧
  (¬ m.Begins .gosubWord → ¬ m.Begins .returnWord → (left (step m)).calls = m.calls)
  := by
  refine ⟨fun rs => moves_performAll rs m, ?_, ?_, frame_step m⟩
  · intro m'
    and_intros
    · apply suffix_of_above fun h => (allShifted_of_move h).loops
    · apply suffix_of_above fun h => (allShifted_of_move h).repeats
    · apply suffix_of_above fun h => (allShifted_of_move h).calls
  · intro m₁ c hstep
    and_intros
    · intro hnext
      apply returnMatches hnext hstep
    · intro hnext
      apply nextMatches hnext hstep
    · intro hnext
      apply untilMatches hnext hstep

/-- The machine after `k` statements of a program in which a repeated loop is nested in a counted
one, and this one in a subroutine. -/
def nested : Nat → Machine
  | 0 => ((ofString "GOSUB 7 END\n7 FOR A = 1 TO 1 REPEAT UNTIL 1 NEXT RETURN").execute 0).2
  | k + 1 => left (step (nested k))

/-- How the statements of the program start, and how deep the stacks are on the way. -/
theorem nested_run :
  (∀ k < 6, (nested k).phase = .running ∧
    (match step (nested k) with
    | .ok none _ => true
    | _ => false) = true) ∧
  (((nested 0).Begins .gosubWord ∧ ¬ (nested 0).Begins .forWord ∧
      ¬ (nested 0).Begins .nextWord) ∧ (nested 1).Begins .forWord ∧
    (nested 2).Begins .repeatWord ∧ (nested 3).Begins .untilWord ∧
    (nested 4).Begins .nextWord ∧ (nested 5).Begins .returnWord) ∧
  (∀ k ≤ 5, 1 ≤ k → (nested 1).calls.size ≤ (nested k).calls.size) ∧
  (∀ k ≤ 4, 2 ≤ k → (nested 2).loops.size ≤ (nested k).loops.size) ∧
  (nested 5).calls.size = (nested 1).calls.size ∧
  (nested 4).loops.size = (nested 2).loops.size ∧
  (nested 5).loops.size < (nested 4).loops.size ∧
  (nested 4).repeats.size < (nested 3).repeats.size
  := by
  decide +kernel

theorem step_nested {k : Nat} (hk : k < 6) :
  step (nested k) = .ok none (nested (k + 1))
  := by
  obtain ⟨-, h⟩ := nested_run.1 k hk
  rw [nested]
  split at h
  · next heq => rw [heq, left]
  · contradiction

theorem above_nested {depth : Machine → Nat} {i j : Nat} (hij : i ≤ j) (hj : j ≤ 6)
    (hdepth : ∀ k ≤ j, i ≤ k → depth (nested i) ≤ depth (nested k)) :
  Above depth (nested i) (nested j)
  := by
  induction j, hij using Nat.le_induction with
  | base => apply ReflTransGen.refl
  | succ j hij ih =>
    have habove := ih (Nat.le_of_lt hj) fun k hk => hdepth k (Nat.le_succ_of_le hk)
    have hmove := Move.statement (nested_run.1 j hj).1 (step_nested hj)
    apply habove.tail
    exact ⟨hmove, hdepth (j + 1) (Nat.le_refl _) (Nat.le_succ_of_le hij)⟩

/-- In the program with nested loops, `RETURN`, `NEXT` and `UNTIL` find the frames of the
statements that they match. -/
theorem stacks_nest_in_subroutine :
  (nested 1).calls.frames <:+ (nested 5).calls.frames ∧ (nested 1).loops = (nested 0).loops ∧
  (nested 6).calls = (nested 0).calls ∧ (nested 5).loops = (nested 1).loops ∧
  (nested 4).repeats = (nested 2).repeats
  := by
  obtain ⟨-, hbegins, habove, habove', hsize, hsize', hless, hless'⟩ := nested_run
  have hstep : ∀ k < 6, step (nested k) = .ok none (nested (k + 1)) := fun k hk => step_nested hk
  have hcalls : Level (·.calls.size) (nested 1) (nested 5) :=
    ⟨above_nested (by decide) (by decide) habove, hsize⟩
  have hloops : Level (·.loops.size) (nested 2) (nested 4) :=
    ⟨above_nested (by decide) (by decide) habove', hsize'⟩
  -- Nothing else is needed about the machines, which are not to be computed again.
  generalize nested = n at hstep hcalls hloops hless hless' hbegins ⊢
  obtain ⟨⟨⟨c₀, h₀⟩, hfor, hnext⟩, ⟨c₁, h₁⟩, ⟨c₂, h₂⟩, ⟨c₃, h₃⟩, ⟨c₄, h₄⟩, ⟨c₅, h₅⟩⟩ := hbegins
  have hreturns := ((stacks_nest (n 0)).2.2.1 _ c₀ (hstep 0 (by decide))).1 h₀
  have hnexts := ((stacks_nest (n 1)).2.2.1 _ c₁ (hstep 1 (by decide))).2.1 h₁
  have huntils := ((stacks_nest (n 2)).2.2.1 _ c₂ (hstep 2 (by decide))).2.2 h₂
  and_intros
  · apply ((stacks_nest (n 1)).2.1 (n 5)).2.2 hcalls.above
  · have hframe := (stacks_nest (n 0)).2.2.2.1 hfor hnext
    rw [hstep 0 (by decide)] at hframe
    apply hframe
  · obtain ⟨_, _, -, -, h⟩ := hreturns
    have hreturn := h _ c₅ hcalls h₅
    rw [hstep 5 (by decide)] at hreturn
    injection hreturn with _ hm
    rw [hm]
  · obtain ⟨i, _, y, _, _, -, -, -, h⟩ := hnexts
    obtain ⟨hleave, hagain, hfault⟩ := h _ c₄ hloops h₄
    rw [hstep 4 (by decide)] at hleave hagain hfault
    cases hname : Cursor.next c₄ with
    | error f d => cases hfault f d hname
    | ok t d =>
      by_cases hx : (n 4).memory.fetch i + 1.0 > y
      · injection hleave t d hname hx with _ hm
        rw [hm]
      · injection hagain t d hname hx with _ hm
        rw [hm] at hless
        exact absurd hless (Nat.lt_irrefl _)
  · obtain ⟨-, h⟩ := huntils
    obtain ⟨hleave, hagain, hfault⟩ := h _ c₃ ⟨.refl, rfl⟩ h₃
    rw [hstep 3 (by decide)] at hleave hagain hfault
    cases hread : Reading.expression (n 3).memory c₃ with
    | error f d => cases hfault f d hread
    | ok x d =>
      cases hx : x != 0.0 with
      | true =>
        injection hleave x d hread hx with _ hm
        rw [hm]
      | false =>
        injection hagain x d hread hx with _ hm
        rw [hm] at hless'
        exact absurd hless' (Nat.lt_irrefl _)

end Machine

end LineBasic
