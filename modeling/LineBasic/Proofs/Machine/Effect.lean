import LineBasic.Machine.Step
import LineBasic.Proofs.Machine.Operation
import LineBasic.Proofs.Program

/-!
# The effects of statements

A statement is read and then carried out.  `Effect` lists the ways in which that can come out,
for each kind of statement those in which it is executed and those in which it ends in a fault,
each with the machine that is left.  Every statement comes out in one of them, so that what a
statement does to a machine is seen from this list alone.
-/

namespace LineBasic

open Program

namespace Execution

/-- What a statement comes to of which the first token has been read. -/
inductive Effect : Token → Machine → EStateM.Result Fault Machine (Option Event) → Prop
  /-- Tokens that start no statement are passed over. -/
  | thenWord {m : Machine} : Effect (.keyword .thenWord) m (.ok none m)
  | toWord {m : Machine} : Effect (.keyword .toWord) m (.ok none m)
  | number {s : String} {m : Machine} : Effect (.number s) m (.ok none m)
  | delimiter {d : Delimiter} {m : Machine} : Effect (.delimiter d) m (.ok none m)
  | quoted {s : String} {m : Machine} : Effect (.quoted s) m (.ok none m)
  | endOfLine {m : Machine} : Effect .endOfLine m (.ok none m)
  /-- `END` and the end of the program. -/
  | endWord {m : Machine} :
    Effect (.keyword .endWord) m (.ok (some .stopped) { m with phase := .stopped })
  | endOfProgram {m : Machine} :
    Effect .endOfProgram m (.ok (some .stopped) { m with phase := .stopped })
  /-- An assignment. -/
  | assign {s : String} {m : Machine} {i : Slot} {x : Float} {c : Cursor}
    (h : Reading.assignment m.memory m.cursor.pushBack = .ok (i, x) c) :
    Effect (.name s) m (.ok none { m with cursor := c, memory := m.memory.store i x })
  | assignFault {s : String} {m : Machine} {f : Fault} {c : Cursor}
    (h : Reading.assignment m.memory m.cursor.pushBack = .error f c) :
    Effect (.name s) m (.error f { m with cursor := c })
  /-- `PRINT`. -/
  | print {m : Machine} {s : String} {c : Cursor}
    (h : Reading.printed m.memory m.cursor = .ok s c) :
    Effect (.keyword .printWord) m (.ok (some (.print s)) { m with cursor := c })
  | printFault {m : Machine} {f : Fault} {c : Cursor}
    (h : Reading.printed m.memory m.cursor = .error f c) :
    Effect (.keyword .printWord) m (.error f { m with cursor := c })
  /-- `INPUT`. -/
  | input {m : Machine} {prompt : String} {i : Slot} {c : Cursor}
    (h : Reading.request m.cursor = .ok (prompt, i) c) :
    Effect (.keyword .inputWord) m
      (.ok (some (.input prompt)) { m with cursor := c, phase := .awaiting prompt i })
  | inputFault {m : Machine} {f : Fault} {c : Cursor} (h : Reading.request m.cursor = .error f c) :
    Effect (.keyword .inputWord) m (.error f { m with cursor := c })
  /-- `GOTO`. -/
  | goto {m : Machine} {a : Nat} {c : Cursor}
    (h : Reading.destination m.labels m.cursor = .ok a c) :
    Effect (.keyword .gotoWord) m (.ok none { m with cursor := c.jump a })
  | gotoFault {m : Machine} {f : Fault} {c : Cursor}
    (h : Reading.destination m.labels m.cursor = .error f c) :
    Effect (.keyword .gotoWord) m (.error f { m with cursor := c })
  /-- `GOSUB`. -/
  | gosub {m : Machine} {a : Nat} {c : Cursor} {st : Stack .calls Nat}
    (h : Reading.destination m.labels m.cursor = .ok a c) (hpush : m.calls.push c.pos = .ok st) :
    Effect (.keyword .gosubWord) m (.ok none { m with cursor := c.jump a, calls := st })
  | gosubFault {m : Machine} {f : Fault} {c : Cursor}
    (h : Reading.destination m.labels m.cursor = .error f c) :
    Effect (.keyword .gosubWord) m (.error f { m with cursor := c })
  | gosubFull {m : Machine} {a : Nat} {c : Cursor} {f : Fault}
    (h : Reading.destination m.labels m.cursor = .ok a c) (hpush : m.calls.push c.pos = .error f) :
    Effect (.keyword .gosubWord) m (.error f { m with cursor := c })
  /-- `RETURN`. -/
  | back {m : Machine} {a : Nat} {st : Stack .calls Nat} (hpop : m.calls.pop = .ok (a, st)) :
    Effect (.keyword .returnWord) m (.ok none { m with cursor := m.cursor.jump a, calls := st })
  | backEmpty {m : Machine} {f : Fault} (hpop : m.calls.pop = .error f) :
    Effect (.keyword .returnWord) m (.error f m)
  /-- `IF`. -/
  | branch {m : Machine} {c : Cursor} (h : Reading.condition m.memory m.cursor = .ok () c) :
    Effect (.keyword .ifWord) m (.ok none { m with cursor := c })
  | branchFault {m : Machine} {f : Fault} {c : Cursor}
    (h : Reading.condition m.memory m.cursor = .error f c) :
    Effect (.keyword .ifWord) m (.error f { m with cursor := c })
  /-- `FOR`. -/
  | enterLoop {m : Machine} {i : Slot} {x y : Float} {c c' : Cursor} {st : Stack .loops Loop}
    (h : Reading.assignment m.memory m.cursor = .ok (i, x) c)
    (htarget : Reading.target (m.memory.store i x) c = .ok y c')
    (hpush : m.loops.push ⟨i, y, c'.pos⟩ = .ok st) :
    Effect (.keyword .forWord) m
      (.ok none { m with cursor := c', memory := m.memory.store i x, loops := st })
  | enterLoopFault {m : Machine} {f : Fault} {c : Cursor}
    (h : Reading.assignment m.memory m.cursor = .error f c) :
    Effect (.keyword .forWord) m (.error f { m with cursor := c })
  | targetFault {m : Machine} {i : Slot} {x : Float} {f : Fault} {c c' : Cursor}
    (h : Reading.assignment m.memory m.cursor = .ok (i, x) c)
    (htarget : Reading.target (m.memory.store i x) c = .error f c') :
    Effect (.keyword .forWord) m
      (.error f { m with cursor := c', memory := m.memory.store i x })
  | loopsFull {m : Machine} {i : Slot} {x y : Float} {f : Fault} {c c' : Cursor}
    (h : Reading.assignment m.memory m.cursor = .ok (i, x) c)
    (htarget : Reading.target (m.memory.store i x) c = .ok y c')
    (hpush : m.loops.push ⟨i, y, c'.pos⟩ = .error f) :
    Effect (.keyword .forWord) m
      (.error f { m with cursor := c', memory := m.memory.store i x })
  /-- `NEXT` that leaves the loop. -/
  | leaveLoop {m : Machine} {c : Cursor} {l : Loop} {st : Stack .loops Loop}
    (h : Reading.loopName m.cursor = .ok () c) (hpop : m.loops.pop = .ok (l, st))
    (hx : m.memory.fetch l.slot + 1.0 > l.target) :
    Effect (.keyword .nextWord) m
      (.ok none
        { m with
          cursor := c
          memory := m.memory.store l.slot (m.memory.fetch l.slot + 1.0)
          loops := st })
  /-- `NEXT` that goes on with the body of the loop. -/
  | nextTurn {m : Machine} {c : Cursor} {l : Loop} {st st' : Stack .loops Loop}
    (h : Reading.loopName m.cursor = .ok () c) (hpop : m.loops.pop = .ok (l, st))
    (hx : ¬ m.memory.fetch l.slot + 1.0 > l.target) (hpush : st.push l = .ok st') :
    Effect (.keyword .nextWord) m
      (.ok none
        { m with
          cursor := c.jump l.body
          memory := m.memory.store l.slot (m.memory.fetch l.slot + 1.0)
          loops := st' })
  | loopNameFault {m : Machine} {f : Fault} {c : Cursor}
    (h : Reading.loopName m.cursor = .error f c) :
    Effect (.keyword .nextWord) m (.error f { m with cursor := c })
  | loopsEmpty {m : Machine} {c : Cursor} {f : Fault}
    (h : Reading.loopName m.cursor = .ok () c) (hpop : m.loops.pop = .error f) :
    Effect (.keyword .nextWord) m (.error f { m with cursor := c })
  | nextTurnFull {m : Machine} {c : Cursor} {l : Loop} {st : Stack .loops Loop} {f : Fault}
    (h : Reading.loopName m.cursor = .ok () c) (hpop : m.loops.pop = .ok (l, st))
    (hx : ¬ m.memory.fetch l.slot + 1.0 > l.target) (hpush : st.push l = .error f) :
    Effect (.keyword .nextWord) m
      (.error f
        { m with
          cursor := c
          memory := m.memory.store l.slot (m.memory.fetch l.slot + 1.0)
          loops := st })
  /-- `REPEAT`. -/
  | enterRepeat {m : Machine} {st : Stack .repeats Nat}
    (hpush : m.repeats.push m.cursor.pos = .ok st) :
    Effect (.keyword .repeatWord) m (.ok none { m with repeats := st })
  | repeatsFull {m : Machine} {f : Fault} (hpush : m.repeats.push m.cursor.pos = .error f) :
    Effect (.keyword .repeatWord) m (.error f m)
  /-- `UNTIL` that leaves the loop. -/
  | leaveRepeat {m : Machine} {body : Nat} {st : Stack .repeats Nat} {x : Float} {c : Cursor}
    (hpop : m.repeats.pop = .ok (body, st))
    (h : Reading.expression m.memory m.cursor = .ok x c) (hx : (x != 0.0) = true) :
    Effect (.keyword .untilWord) m (.ok none { m with cursor := c, repeats := st })
  /-- `UNTIL` that goes on with the body of the loop. -/
  | repeatAgain {m : Machine} {body : Nat} {st st' : Stack .repeats Nat} {x : Float} {c : Cursor}
    (hpop : m.repeats.pop = .ok (body, st))
    (h : Reading.expression m.memory m.cursor = .ok x c) (hx : (x != 0.0) = false)
    (hpush : st.push body = .ok st') :
    Effect (.keyword .untilWord) m (.ok none { m with cursor := c.jump body, repeats := st' })
  | repeatsEmpty {m : Machine} {f : Fault} (hpop : m.repeats.pop = .error f) :
    Effect (.keyword .untilWord) m (.error f m)
  | untilFault {m : Machine} {body : Nat} {st : Stack .repeats Nat} {f : Fault} {c : Cursor}
    (hpop : m.repeats.pop = .ok (body, st))
    (h : Reading.expression m.memory m.cursor = .error f c) :
    Effect (.keyword .untilWord) m (.error f { m with cursor := c, repeats := st })
  | repeatAgainFull {m : Machine} {body : Nat} {st : Stack .repeats Nat} {x : Float} {c : Cursor}
    {f : Fault} (hpop : m.repeats.pop = .ok (body, st))
    (h : Reading.expression m.memory m.cursor = .ok x c) (hx : (x != 0.0) = false)
    (hpush : st.push body = .error f) :
    Effect (.keyword .untilWord) m (.error f { m with cursor := c, repeats := st })

/-! ### Each statement has its effect -/

variable (m : Machine)

theorem effect_assign (s : String) :
  Effect (.name s) m (statement (.name s) m)
  := by
  have hback : read Reading.pushBack m = .ok () { m with cursor := m.cursor.pushBack } := rfl
  rw [statement, bind_of_ok hback, assign, bind_get]
  cases h : Reading.assignment m.memory m.cursor.pushBack with
  | ok a c =>
    rw [bind_of_ok (read_of_ok h)]
    apply Effect.assign h
  | error f c =>
    rw [bind_of_error (read_of_error h)]
    apply Effect.assignFault h

theorem effect_print :
  Effect (.keyword .printWord) m (print m)
  := by
  rw [print, bind_get]
  cases h : Reading.printed m.memory m.cursor with
  | ok s c =>
    rw [bind_of_ok (read_of_ok h)]
    apply Effect.print h
  | error f c =>
    rw [bind_of_error (read_of_error h)]
    apply Effect.printFault h

theorem effect_input :
  Effect (.keyword .inputWord) m (input m)
  := by
  rw [input]
  cases h : Reading.request m.cursor with
  | ok a c =>
    rw [bind_of_ok (read_of_ok h)]
    apply Effect.input h
  | error f c =>
    rw [bind_of_error (read_of_error h)]
    apply Effect.inputFault h

theorem effect_goto :
  Effect (.keyword .gotoWord) m (goto m)
  := by
  rw [goto, bind_get]
  cases h : Reading.destination m.labels m.cursor with
  | ok a c =>
    rw [bind_of_ok (read_of_ok h)]
    apply Effect.goto h
  | error f c =>
    rw [bind_of_error (read_of_error h)]
    apply Effect.gotoFault h

theorem effect_gosub :
  Effect (.keyword .gosubWord) m (gosub m)
  := by
  rw [gosub, bind_get]
  cases h : Reading.destination m.labels m.cursor with
  | ok a c =>
    rw [bind_of_ok (read_of_ok h), bind_get, pushCall_eq]
    cases hpush : m.calls.push c.pos with
    | ok st =>
      rw [bind_of_ok (pushOn_of_ok hpush)]
      apply Effect.gosub h hpush
    | error f =>
      rw [bind_of_error (pushOn_of_error hpush)]
      apply Effect.gosubFull h hpush
  | error f c =>
    rw [bind_of_error (read_of_error h)]
    apply Effect.gosubFault h

theorem effect_back :
  Effect (.keyword .returnWord) m (back m)
  := by
  rw [back, popCall_eq]
  cases hpop : m.calls.pop with
  | ok x =>
    rw [bind_of_ok (popOff_of_ok hpop)]
    apply Effect.back hpop
  | error f =>
    rw [bind_of_error (popOff_of_error hpop)]
    apply Effect.backEmpty hpop

theorem effect_branch :
  Effect (.keyword .ifWord) m (branch m)
  := by
  rw [branch, bind_get]
  cases h : Reading.condition m.memory m.cursor with
  | ok _ c =>
    rw [bind_of_ok (read_of_ok h)]
    apply Effect.branch h
  | error f c =>
    rw [bind_of_error (read_of_error h)]
    apply Effect.branchFault h

theorem effect_countedLoop :
  Effect (.keyword .forWord) m (countedLoop m)
  := by
  rw [countedLoop, bind_get]
  cases h : Reading.assignment m.memory m.cursor with
  | error f c =>
    rw [bind_of_error (read_of_error h)]
    apply Effect.enterLoopFault h
  | ok a c =>
    obtain ⟨i, x⟩ := a
    rw [bind_of_ok (read_of_ok h)]
    simp only
    rw [store, bind_modify, bind_get]
    cases htarget : Reading.target (m.memory.store i x) c with
    | error f c' =>
      rw [bind_of_error (read_of_error htarget)]
      apply Effect.targetFault h htarget
    | ok y c' =>
      rw [bind_of_ok (read_of_ok htarget), bind_get, pushLoop_eq]
      cases hpush : m.loops.push ⟨i, y, c'.pos⟩ with
      | ok st =>
        rw [bind_of_ok (pushOn_of_ok hpush)]
        apply Effect.enterLoop h htarget hpush
      | error f =>
        rw [bind_of_error (pushOn_of_error hpush)]
        apply Effect.loopsFull h htarget hpush

theorem effect_advance :
  Effect (.keyword .nextWord) m (advance m)
  := by
  rw [advance]
  cases h : Reading.loopName m.cursor with
  | error f c =>
    rw [bind_of_error (read_of_error h)]
    apply Effect.loopNameFault h
  | ok _ c =>
    rw [bind_of_ok (read_of_ok h)]
    cases hpop : m.loops.pop with
    | error f =>
      rw [popLoop_eq, bind_of_error (popOff_of_error hpop)]
      apply Effect.loopsEmpty h hpop
    | ok a =>
      obtain ⟨l, st⟩ := a
      have hpopped : popLoop { m with cursor := c } =
          .ok l { m with cursor := c, loops := st } := by
        rw [popLoop_eq]
        apply popOff_of_ok hpop
      rw [bind_of_ok hpopped, bind_get, store, bind_modify]
      by_cases hx : m.memory.fetch l.slot + 1.0 > l.target
      · rw [if_pos hx]
        apply Effect.leaveLoop h hpop hx
      · rw [if_neg hx, pushLoop_eq]
        cases hpush : st.push l with
        | ok st' =>
          rw [bind_of_ok (pushOn_of_ok hpush)]
          apply Effect.nextTurn h hpop hx hpush
        | error f =>
          rw [bind_of_error (pushOn_of_error hpush)]
          apply Effect.nextTurnFull h hpop hx hpush

theorem effect_repeatedLoop :
  Effect (.keyword .repeatWord) m (repeatedLoop m)
  := by
  rw [repeatedLoop, bind_get, pushRepeat_eq]
  cases hpush : m.repeats.push m.cursor.pos with
  | ok st =>
    rw [bind_of_ok (pushOn_of_ok hpush)]
    apply Effect.enterRepeat hpush
  | error f =>
    rw [bind_of_error (pushOn_of_error hpush)]
    apply Effect.repeatsFull hpush

theorem effect_untilTrue :
  Effect (.keyword .untilWord) m (untilTrue m)
  := by
  rw [untilTrue]
  cases hpop : m.repeats.pop with
  | error f =>
    rw [popRepeat_eq, bind_of_error (popOff_of_error hpop)]
    apply Effect.repeatsEmpty hpop
  | ok a =>
    obtain ⟨body, st⟩ := a
    have hpopped : popRepeat m = .ok body { m with repeats := st } := by
      rw [popRepeat_eq]
      apply popOff_of_ok hpop
    rw [bind_of_ok hpopped, bind_get]
    cases h : Reading.expression m.memory m.cursor with
    | error f c =>
      have hread := read_of_error (m := { m with repeats := st }) h
      rw [bind_of_error hread]
      apply Effect.untilFault hpop h
    | ok x c =>
      have hread := read_of_ok (m := { m with repeats := st }) h
      rw [bind_of_ok hread]
      cases hx : x != 0.0 with
      | true =>
        rw [if_pos rfl]
        apply Effect.leaveRepeat hpop h hx
      | false =>
        rw [if_neg Bool.false_ne_true, pushRepeat_eq]
        cases hpush : st.push body with
        | ok st' =>
          rw [bind_of_ok (pushOn_of_ok hpush)]
          apply Effect.repeatAgain hpop h hx hpush
        | error f =>
          rw [bind_of_error (pushOn_of_error hpush)]
          apply Effect.repeatAgainFull hpop h hx hpush

/-- Every statement has one of the effects. -/
theorem effect_statement (t : Token) :
  Effect t m (statement t m)
  := by
  cases t with
  | name s => apply effect_assign
  | number s => apply Effect.number
  | delimiter d => apply Effect.delimiter
  | quoted s => apply Effect.quoted
  | endOfLine => apply Effect.endOfLine
  | endOfProgram => apply Effect.endOfProgram
  | keyword k =>
    rw [statement]
    cases k with
    | printWord => apply effect_print
    | inputWord => apply effect_input
    | endWord => apply Effect.endWord
    | gotoWord => apply effect_goto
    | gosubWord => apply effect_gosub
    | returnWord => apply effect_back
    | ifWord => apply effect_branch
    | forWord => apply effect_countedLoop
    | nextWord => apply effect_advance
    | repeatWord => apply effect_repeatedLoop
    | untilWord => apply effect_untilTrue
    | thenWord => apply Effect.thenWord
    | toWord => apply Effect.toWord

/-- No statement has two effects. -/
theorem Effect.unique {t : Token} {m : Machine} {r r' : EStateM.Result Fault Machine (Option Event)}
    (h : Effect t m r) (h' : Effect t m r') :
  r = r'
  := by
  -- Effects of the same token are told apart by what is read and by what is on the stacks.
  cases h
  all_goals
    cases h'
    all_goals grind

/-! ### Steps -/

variable {m}

/-- A step that can be begun executes the statement of the token that is read. -/
theorem step_of_next_ok {t : Token} {c : Cursor} (h : Cursor.next m.cursor = .ok t c) :
  step m = statement t { m with cursor := c, statement := c.start }
  := by
  have hread := read_of_ok (m := { m with statement := m.cursor.pos }) h
  rw [step, begin, bind_modify]
  apply bind_of_ok hread

/-- A step that can be begun has an effect of its first token. -/
theorem effect_step {t : Token} {c : Cursor} (h : Cursor.next m.cursor = .ok t c) :
  Effect t { m with cursor := c, statement := c.start } (step m)
  := by
  rw [step_of_next_ok h]
  apply effect_statement

/-- A step that can be begun comes to what its statement comes to. -/
theorem step_eq_iff {t : Token} {c : Cursor} {r : EStateM.Result Fault Machine (Option Event)}
    (h : Cursor.next m.cursor = .ok t c) :
  step m = r ↔ Effect t { m with cursor := c, statement := c.start } r
  := by
  have heffect := effect_step h
  constructor
  · rintro rfl
    apply heffect
  · intro hr
    apply heffect.unique hr

/-- A step that cannot be begun ends where it was to begin. -/
theorem step_of_next_error {f : Fault} {c : Cursor} (h : Cursor.next m.cursor = .error f c) :
  step m = .error f { m with cursor := c, statement := m.cursor.pos }
  := by
  have hread := read_of_error (m := { m with statement := m.cursor.pos }) h
  rw [step, begin, bind_modify]
  apply bind_of_error hread

end Execution

end LineBasic
