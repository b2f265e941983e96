import LineBasic.Proofs.Machine.Raise

/-!
# Full and empty stacks

Whatever is executed, no stack comes to hold more frames than it can.  `GOSUB`, `FOR` and `REPEAT`
push a frame on a stack of their own, once they have been read, and fail exactly where this stack
is full; `RETURN`, `NEXT` and `UNTIL` pop one, and fail to do so exactly where it is empty.  No
stack is changed by either failure.  `NEXT` and `UNTIL` push the frame again that they have popped,
for which there is always room.
-/

namespace LineBasic

open Program

namespace Machine

open Execution

variable {s : Source} {m m' : Machine} {role : Stack.Role} {kind : Fault.Kind} {size : Nat}
  {c : Cursor} {f : Fault}

/-- All stacks are the same. -/
structure SameStacks (m m' : Machine) : Prop where
  loops : m'.loops = m.loops
  repeats : m'.repeats = m.repeats
  calls : m'.calls = m.calls

/-! ### Pushing -/

/-- The next statement pushes a frame, and can be read up to the cursor: a `GOSUB` whose label is
defined, a `FOR` with all its parts, or a `REPEAT`.  Its own stack has a role and a number of
frames. -/
inductive Enters (m : Machine) : Stack.Role → Nat → Cursor → Prop
  | call {c c' : Cursor} {a : Nat} (hnext : Cursor.next m.cursor = .ok (.keyword .gosubWord) c)
    (hdestination : Reading.destination m.labels c = .ok a c') :
    Enters m .calls m.calls.size c'
  | loop {c c₁ c₂ : Cursor} {i : Slot} {x y : Float}
    (hnext : Cursor.next m.cursor = .ok (.keyword .forWord) c)
    (hassignment : Reading.assignment m.memory c = .ok (i, x) c₁)
    (htarget : Reading.target (m.memory.store i x) c₁ = .ok y c₂) :
    Enters m .loops m.loops.size c₂
  | repeated {c : Cursor} (hnext : Cursor.next m.cursor = .ok (.keyword .repeatWord) c) :
    Enters m .repeats m.repeats.size c

theorem Enters.size_le (h : Enters m role size c) (hm : Bounded m) :
  size ≤ Stack.limit
  := by
  cases h with
  | call => apply hm.calls
  | loop => apply hm.loops
  | repeated => apply hm.repeats

/-- A statement that pushes a frame does so where there is room. -/
theorem step_of_enters_of_lt (h : Enters m role size c) (hroom : size < Stack.limit) :
  ∃ m', step m = .ok none m'
  := by
  cases h with
  | call hnext hdestination =>
    obtain ⟨st, hpush⟩ := Stack.exists_push hroom c.pos
    exact ⟨_, (step_eq_iff hnext).mpr (.gosub hdestination hpush)⟩
  | @loop _ _ _ i _ y hnext hassignment htarget =>
    obtain ⟨st, hpush⟩ := Stack.exists_push hroom ⟨i, y, c.pos⟩
    exact ⟨_, (step_eq_iff hnext).mpr (.enterLoop hassignment htarget hpush)⟩
  | repeated hnext =>
    obtain ⟨st, hpush⟩ := Stack.exists_push hroom c.pos
    exact ⟨_, (step_eq_iff hnext).mpr (.enterRepeat hpush)⟩

/-- A statement that pushes a frame fails after it has been read where there is no room, and does
not jump. -/
theorem step_of_enters_of_le (h : Enters m role size c) (hfull : Stack.limit ≤ size) :
  ∃ m', step m = .error (Fault.of .outOfMemory role.overflow) m' ∧ SameStacks m m' ∧ m'.cursor = c
  := by
  cases h with
  | call hnext hdestination =>
    have hpush := Stack.push_of_limit_le hfull c.pos
    exact ⟨_, (step_eq_iff hnext).mpr (.gosubFull hdestination hpush), ⟨rfl, rfl, rfl⟩, rfl⟩
  | @loop _ _ _ i _ y hnext hassignment htarget =>
    have hpush := Stack.push_of_limit_le hfull ⟨i, y, c.pos⟩
    exact ⟨_, (step_eq_iff hnext).mpr (.loopsFull hassignment htarget hpush), ⟨rfl, rfl, rfl⟩, rfl⟩
  | repeated hnext =>
    have hpush := Stack.push_of_limit_le hfull c.pos
    exact ⟨_, (step_eq_iff hnext).mpr (.repeatsFull hpush), ⟨rfl, rfl, rfl⟩, rfl⟩

/-! ### Popping -/

/-- The next statement pops a frame: a `RETURN`, a `NEXT` after which the next token can be read, or
an `UNTIL`.  Its own stack has a kind of fault for the lack of a frame and a number of frames. -/
inductive Leaves (m : Machine) : Fault.Kind → Nat → Prop
  | call {c : Cursor} (hnext : Cursor.next m.cursor = .ok (.keyword .returnWord) c) :
    Leaves m .returnWithoutGosub m.calls.size
  | loop {c c' : Cursor} {t : Token} (hnext : Cursor.next m.cursor = .ok (.keyword .nextWord) c)
    (hname : Cursor.next c = .ok t c') : Leaves m .nextWithoutFor m.loops.size
  | repeated {c : Cursor} (hnext : Cursor.next m.cursor = .ok (.keyword .untilWord) c) :
    Leaves m .nextWithoutFor m.repeats.size

/-- A statement that pops a frame fails where there is none. -/
theorem step_of_leaves_of_eq_zero (h : Leaves m kind size) (hempty : size = 0) :
  ∃ m', step m = .error (Fault.of kind) m' ∧ SameStacks m m'
  := by
  cases h with
  | call hnext =>
    have hpop := Stack.pop_of_size_eq_zero hempty
    exact ⟨_, (step_eq_iff hnext).mpr (.backEmpty hpop), ⟨rfl, rfl, rfl⟩⟩
  | loop hnext hname =>
    have hpop := Stack.pop_of_size_eq_zero hempty
    have hread := Reading.loopName_of_next hname
    exact ⟨_, (step_eq_iff hnext).mpr (.loopsEmpty hread hpop), ⟨rfl, rfl, rfl⟩⟩
  | repeated hnext =>
    have hpop := Stack.pop_of_size_eq_zero hempty
    exact ⟨_, (step_eq_iff hnext).mpr (.repeatsEmpty hpop), ⟨rfl, rfl, rfl⟩⟩

/-- A statement fails for the lack of a frame only where there is none. -/
theorem size_eq_zero_of_leaves (h : Leaves m kind size) (hstep : step m = .error f m')
    (hkind : f.kind = kind) :
  size = 0
  := by
  cases h with
  | call hnext =>
    cases (step_eq_iff hnext).mp hstep with
    | backEmpty hpop => apply Stack.size_of_pop_error hpop
  | loop hnext hname =>
    cases (step_eq_iff hnext).mp hstep with
    | loopsEmpty _ hpop => apply Stack.size_of_pop_error hpop
    | loopNameFault hread => cases hread.symm.trans (Reading.loopName_of_next hname)
    | nextTurnFull _ _ _ hpush =>
      obtain ⟨-, rfl⟩ := Stack.push_eq_error_iff.mp hpush
      cases hkind
  | repeated hnext =>
    cases (step_eq_iff hnext).mp hstep with
    | repeatsEmpty hpop => apply Stack.size_of_pop_error hpop
    | untilFault _ hread =>
      have hmem := Reading.raises_expression.mem_of_error hread
      rw [hkind] at hmem
      exact absurd hmem (by decide)
    | repeatAgainFull _ _ _ hpush =>
      obtain ⟨-, rfl⟩ := Stack.push_eq_error_iff.mp hpush
      cases hkind

/-- A `NEXT` or `UNTIL` does not run out of memory, since it pushes what it has popped. -/
theorem kind_ne_outOfMemory (hm : Bounded m) (hstep : step m = .error f m')
    (hbegins : m.Begins .nextWord ∨ m.Begins .untilWord) :
  f.kind ≠ .outOfMemory
  := by
  intro hkind
  have hraises := raises_of_step hm hstep
  rw [hkind] at hraises
  rcases hbegins with ⟨c, hnext⟩ | ⟨c, hnext⟩
  all_goals
    cases hraises with
    | statement hnext' hk =>
      cases hnext.symm.trans hnext'
      revert hk
      decide

/-- No stack ever holds more than 65535 frames.  A `GOSUB` whose label is defined, a `FOR` with all
its parts and a `REPEAT` run out of memory where their own stack holds as many, and are executed
everywhere else; they leave the stacks as they are when they fail, and stay where they have been
read.  `NEXT` and `UNTIL` never run out of memory.  A statement that pops a frame fails for the lack
of one where its own stack is empty, and nowhere else, and leaves the stacks as they are when it
does. -/
theorem stacks_overflow_when_full (h : Reachable s m) :
  (m.loops.size ≤ 65535 ∧ m.repeats.size ≤ 65535 ∧ m.calls.size ≤ 65535) ∧
  (∀ role size c, m.Enters role size c →
    ((∃ f m', step m = .error f m' ∧ f.kind = .outOfMemory) ↔ size = 65535) ∧
    (size ≠ 65535 → ∃ m', step m = .ok none m') ∧
    ∀ f m', step m = .error f m' →
      f = Fault.of .outOfMemory role.overflow ∧ SameStacks m m' ∧ m'.cursor = c) ∧
  (∀ f m', step m = .error f m' → m.Begins .nextWord ∨ m.Begins .untilWord →
    f.kind ≠ .outOfMemory) ∧
  ∀ kind size, m.Leaves kind size →
    ((∃ f m', step m = .error f m' ∧ f.kind = kind) ↔ size = 0) ∧
    ∀ f m', step m = .error f m' → f.kind = kind → f = Fault.of kind ∧ SameStacks m m'
  := by
  have hbounded := h.bounded
  refine ⟨⟨hbounded.loops, hbounded.repeats, hbounded.calls⟩, ?_, ?_, ?_⟩
  · intro role size c henters
    rcases (henters.size_le hbounded).lt_or_eq with hroom | hfull
    · obtain ⟨m₁, hok⟩ := step_of_enters_of_lt henters hroom
      refine ⟨⟨?_, fun hfull => absurd hfull hroom.ne⟩, fun _ => ⟨m₁, hok⟩, ?_⟩
      · rintro ⟨f, m', herror, -⟩
        cases hok.symm.trans herror
      · intro f m' herror
        cases hok.symm.trans herror
    · obtain ⟨m₁, herror, hrest⟩ := step_of_enters_of_le henters hfull.ge
      refine ⟨⟨fun _ => hfull, fun _ => ⟨_, m₁, herror, rfl⟩⟩, fun hne => absurd hfull hne, ?_⟩
      intro f m' herror'
      cases herror.symm.trans herror'
      exact ⟨rfl, hrest⟩
  · intro f m' hstep
    apply kind_ne_outOfMemory hbounded hstep
  · intro kind size hleaves
    refine ⟨⟨?_, ?_⟩, ?_⟩
    · rintro ⟨f, m', hstep, hkind⟩
      apply size_eq_zero_of_leaves hleaves hstep hkind
    · intro hempty
      obtain ⟨m', hstep, -⟩ := step_of_leaves_of_eq_zero hleaves hempty
      exact ⟨_, m', hstep, rfl⟩
    · intro f m' hstep hkind
      have hempty := size_eq_zero_of_leaves hleaves hstep hkind
      obtain ⟨m₁, hstep₁, hsame⟩ := step_of_leaves_of_eq_zero hleaves hempty
      cases hstep.symm.trans hstep₁
      exact ⟨rfl, hsame⟩

/-- A program that calls itself. -/
def calling : Source :=
  .ofString "7 GOSUB 7"

/-- The machine is about to execute the `GOSUB` of this program, with a number of callers. -/
structure Calling (n : Nat) (m : Machine) : Prop where
  reachable : Reachable calling m
  running : m.phase = .running
  pos_eq : m.cursor.pos = 1
  get?_eq : m.labels.get? "7" = some 1
  size_eq : m.calls.size = n

theorem Calling.exists_destination {n : Nat} (h : Calling n m) :
  ∃ c c', Cursor.next m.cursor = .ok (.keyword .gosubWord) c ∧
    Reading.destination m.labels c = .ok 1 c'
  := by
  have hcursor : m.cursor.jump m.cursor.pos = calling.cursor 1 := by
    rw [Cursor.jump, h.reachable.settled.cursor.source_eq, h.pos_eq]
    rfl
  have hread : value? (Cursor.next (calling.cursor 1)) = some (.keyword .gosubWord) ∧
      value? (Cursor.next (left (Cursor.next (calling.cursor 1)))) = some (.number "7") := by
    decide +kernel
  rw [← hcursor, Reading.afresh_next] at hread
  have hlabel := eq_ok_of_value? hread.2
  exact ⟨_, _, eq_ok_of_value? hread.1, Reading.destination_of_get? hlabel h.get?_eq⟩

/-- While there is room, every call adds a caller. -/
theorem exists_calling {n : Nat} (hn : n ≤ Stack.limit) :
  ∃ m, Calling n m
  := by
  induction n with
  | zero =>
    have hfirst : ((ofSource calling).performAll [.execute 1]).2.phase = .running ∧
        ((ofSource calling).performAll [.execute 1]).2.cursor.pos = 1 ∧
        ((ofSource calling).performAll [.execute 1]).2.labels.get? "7" = some 1 ∧
        ((ofSource calling).performAll [.execute 1]).2.calls.size = 0 := by
      decide +kernel
    obtain ⟨hrun, hpos, hget, hsize⟩ := hfirst
    exact ⟨_, ⟨_, rfl⟩, hrun, hpos, hget, hsize⟩
  | succ n ih =>
    obtain ⟨m, hm⟩ := ih (Nat.le_of_succ_le hn)
    obtain ⟨c, c', hnext, hdestination⟩ := hm.exists_destination
    rw [← hm.size_eq] at hn
    obtain ⟨st, hpush⟩ := Stack.exists_push hn c'.pos
    have hstep := (step_eq_iff hnext).mpr (.gosub hdestination hpush)
    refine ⟨_, hm.reachable.move (.statement hm.running hstep), hm.running, rfl, hm.get?_eq, ?_⟩
    rw [← hm.size_eq]
    apply Stack.size_of_push hpush

/-- A program that calls itself runs out of memory when it has called itself 65535 times. -/
theorem stacks_overflow_when_full_of_calling :
  ∃ m c, Calling 65535 m ∧ m.Enters .calls 65535 c ∧
    ∃ f m', step m = .error f m' ∧ f.kind = .outOfMemory
  := by
  obtain ⟨m, hm⟩ := exists_calling (Nat.le_refl Stack.limit)
  obtain ⟨_, c, hnext, hdestination⟩ := hm.exists_destination
  have henters := Enters.call hnext hdestination
  rw [hm.size_eq] at henters
  exact ⟨m, c, hm, henters, ((stacks_overflow_when_full hm.reachable).2.1 _ _ c henters).1.mpr rfl⟩

end Machine

end LineBasic
