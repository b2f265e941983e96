import LineBasic.Proofs.Machine.Nesting
import LineBasic.Proofs.Number.Whole

/-!
# Counted loops

A `FOR` notes a slot, the number it counts to and the offset of its body.  Every time the body has
come to the `NEXT` that matches the `FOR`, one is added to the slot, and the loop is left as soon as
the number is exceeded.  Whatever the body does, as long as it leaves the slot as it is, it is
therefore passed as often as one has to be added until the number is exceeded, once at least.
-/

namespace LineBasic

open Program
open Number (counted Exceeds Whole)
open Relation (ReflTransGen)

namespace Machine

open Execution

/-! ### Passing the body -/

/-- The machine is about to execute a `NEXT` with the given number of loops. -/
def AtNext (depth : Nat) (m : Machine) : Prop :=
  m.phase = .running ∧ m.Begins .nextWord ∧ m.loops.size = depth

instance (depth : Nat) (m : Machine) : Decidable (AtNext depth m) :=
  inferInstanceAs (Decidable (_ ∧ _ ∧ _))

/-- One machine comes from another one by a move that leaves all loops up to the given depth, and
is not the `NEXT` of the last one of them. -/
structure Inside (depth : Nat) (m m' : Machine) : Prop where
  move : Move m m'
  depth_le : depth ≤ m'.loops.size
  step_ne : AtNext depth m → step m ≠ .ok none m'

/-- The body of a loop is passed from one machine to another one, which is about to execute the
`NEXT` of the loop.  In between no such `NEXT` has been executed, and the slot has at the end the
value that it had at first. -/
structure Pass (i : Slot) (depth : Nat) (m m' : Machine) : Prop where
  inside : ReflTransGen (Inside depth) m m'
  atNext : AtNext depth m'
  fetch_eq : m'.memory.fetch i = m.memory.fetch i

/-- The loop that `m₁` has just entered has not been left up to `a k`. -/
def InLoop (m₁ : Machine) (a : Nat → Machine) (k : Nat) : Prop :=
  ∀ j ≤ k, (a j).loops.size = m₁.loops.size

/-- As long as the loop that `m₁` has just entered is not left, the body is passed from `a k` to
`b k`, whose `NEXT` leads to `a (k + 1)`. -/
structure Continues (i : Slot) (m₁ : Machine) (a b : Nat → Machine) : Prop where
  first : a 0 = m₁
  pass {k : Nat} : InLoop m₁ a k → Pass i m₁.loops.size (a k) (b k)
  next {k : Nat} : InLoop m₁ a k → step (b k) = .ok none (a (k + 1))

/-- A `NEXT` of `m` has given the slot a number and has gone on with the body. -/
def Repeated (i : Slot) (x : Float) (body : Nat) (m m' : Machine) : Prop :=
  ∃ c t c', Cursor.next m.cursor = .ok (.keyword .nextWord) c ∧ Cursor.next c = .ok t c' ∧
    m' = { m with
      cursor := c'.jump body
      memory := m.memory.store i x
      statement := c.start }

/-- A `NEXT` of `m` has given the slot a number and has gone on after it and the name, if one
follows, with the given loops. -/
def Finished (i : Slot) (x : Float) (loops : Stack .loops Loop) (m m' : Machine) : Prop :=
  ∃ c t c', Cursor.next m.cursor = .ok (.keyword .nextWord) c ∧ Cursor.next c = .ok t c' ∧
    m' = { m with
      cursor := Reading.afterName t c'
      memory := m.memory.store i x
      loops := loops
      statement := c.start }

variable {m m₁ : Machine} {a b : Nat → Machine} {c : Cursor} {i : Slot} {x y : Float}
  {body k n : Nat}

theorem Pass.level {m' : Machine} (h : Pass i m₁.loops.size m m')
    (hm : Level (·.loops.size) m₁ m) :
  Level (·.loops.size) m₁ m'
  where
  above := by
    apply hm.above.trans
    apply ReflTransGen.mono _ _ _ h.inside
    intro _ _ hinside
    exact ⟨hinside.move, hinside.depth_le⟩
  depth_eq := h.atNext.2.2

/-! ### One turn -/

/-- A `NEXT` that is executed at the depth of the loop either goes on with the body or leaves
the loop, depending on the number in the slot. -/
structure Counter (m m₁ : Machine) (i : Slot) (y : Float) (body : Nat) : Prop where
  size_eq : m₁.loops.size = m.loops.size + 1
  next {m₂ m₃ : Machine} : Level (·.loops.size) m₁ m₂ → m₂.Begins .nextWord →
    step m₂ = .ok none m₃ →
    (m₂.memory.fetch i + 1.0 > y ∧ Finished i (m₂.memory.fetch i + 1.0) m.loops m₂ m₃) ∨
    (¬ m₂.memory.fetch i + 1.0 > y ∧ Repeated i (m₂.memory.fetch i + 1.0) body m₂ m₃)

/-- The loop of a `FOR` that is executed, with what it reads and what it changes. -/
theorem exists_counter (hnext : Cursor.next m.cursor = .ok (.keyword .forWord) c)
    (hstep : step m = .ok none m₁) :
  ∃ i x y c₁ c₂, Reading.assignment m.memory c = .ok (i, x) c₁ ∧
    Reading.target (m.memory.store i x) c₁ = .ok y c₂ ∧
    m₁ = { m with
      cursor := c₂
      memory := m.memory.store i x
      loops := m₁.loops
      statement := c.start } ∧
    Counter m m₁ i y c₂.pos
  := by
  obtain ⟨i, x, y, c₁, c₂, hassign, htarget, hsize, hmatch⟩ := nextMatches hnext hstep
  refine ⟨i, x, y, c₁, c₂, hassign, htarget, ?_, hsize, ?_⟩
  · cases (step_eq_iff hnext).mp hstep with
    | enterLoop hassign' htarget' =>
      cases hassign'.symm.trans hassign
      cases htarget'.symm.trans htarget
      rfl
  · rintro m₂ m₃ hlevel ⟨d, hd⟩ hstep₂
    obtain ⟨hleave, hagain, hfault⟩ := hmatch m₂ d hlevel hd
    rw [hstep₂] at hleave hagain hfault
    cases hname : Cursor.next d with
    | error f d' => cases hfault f d' hname
    | ok t d' =>
      by_cases hx : m₂.memory.fetch i + 1.0 > y
      · injection hleave t d' hname hx with _ hm
        exact .inl ⟨hx, d, t, d', hd, hname, hm⟩
      · injection hagain t d' hname hx with _ hm
        exact .inr ⟨hx, d, t, d', hd, hname, hm⟩

/-! ### All turns -/

/-- The machine starts the turn after the first `k` ones. -/
structure Turn (m₁ : Machine) (i : Slot) (x : Float) (k : Nat) (m : Machine) : Prop where
  level : Level (·.loops.size) m₁ m
  fetch_eq : m.memory.fetch i = counted x k

theorem inLoop_succ (h : InLoop m₁ a k) (hsize : (a (k + 1)).loops.size = m₁.loops.size) :
  InLoop m₁ a (k + 1)
  := by
  intro j hj
  rcases Nat.le_succ_iff.mp hj with hle | rfl
  · apply h j hle
  · apply hsize

/-- The `NEXT` at the end of a turn leaves the loop if the number is exceeded, and starts the turn
after it if it is not. -/
theorem turn_succ (hcounter : Counter m m₁ i y body) (h : Continues i m₁ a b)
    (hin : InLoop m₁ a k) (hturn : Turn m₁ i x k (a k)) :
  (counted x (k + 1) > y ∧ Finished i (counted x (k + 1)) m.loops (b k) (a (k + 1))) ∨
  (¬ counted x (k + 1) > y ∧ Repeated i (counted x (k + 1)) body (b k) (a (k + 1)) ∧
    InLoop m₁ a (k + 1) ∧ Turn m₁ i x (k + 1) (a (k + 1)))
  := by
  have hpass := h.pass hin
  have hstep := h.next hin
  have hlevel := hpass.level hturn.level
  have hfetch : (b k).memory.fetch i + 1.0 = counted x (k + 1) := by
    rw [hpass.fetch_eq, hturn.fetch_eq, Number.counted_succ]
  have hcases := hcounter.next hlevel hpass.atNext.2.1 hstep
  rw [hfetch] at hcases
  rcases hcases with hleave | ⟨hx, d, t, d', hd, hname, hm⟩
  · exact .inl hleave
  · have hsize : (a (k + 1)).loops.size = m₁.loops.size := by
      rw [hm]
      apply hlevel.depth_eq
    refine .inr ⟨hx, ⟨d, t, d', hd, hname, hm⟩, inLoop_succ hin hsize, ?_, ?_⟩
    · have hmove := Move.statement hpass.atNext.1 hstep
      exact ⟨hlevel.above.tail ⟨hmove, hsize.ge⟩, hsize⟩
    · rw [hm, Memory.fetch_store, if_pos rfl]

/-- As long as the number has not been exceeded, the turns follow one another. -/
theorem turn_of_not_exceeded (hcounter : Counter m m₁ i y body) (h : Continues i m₁ a b)
    (hx : m₁.memory.fetch i = x) (hle : ∀ j < k, ¬ counted x (j + 1) > y) :
  InLoop m₁ a k ∧ Turn m₁ i x k (a k)
  := by
  induction k with
  | zero =>
    constructor
    · intro j hj
      rw [Nat.le_zero.mp hj, h.first]
    · rw [h.first]
      exact ⟨⟨.refl, rfl⟩, hx⟩
  | succ k ih =>
    obtain ⟨hin, hturn⟩ := ih fun j hj => hle j (Nat.lt_succ_of_lt hj)
    rcases turn_succ hcounter h hin hturn with ⟨hgt, -⟩ | ⟨-, -, hnext⟩
    · exact absurd hgt (hle k (Nat.lt_succ_self k))
    · apply hnext

/-- After a turn at whose end the number is not exceeded, the body is passed once more. -/
theorem repeated_of_not_exceeded (hcounter : Counter m m₁ i y body) (h : Continues i m₁ a b)
    (hx : m₁.memory.fetch i = x) (hle : ∀ j ≤ k, ¬ counted x (j + 1) > y) :
  Pass i m₁.loops.size (a k) (b k) ∧ Repeated i (counted x (k + 1)) body (b k) (a (k + 1))
  := by
  obtain ⟨hin, hturn⟩ := turn_of_not_exceeded hcounter h hx fun j hj => hle j (Nat.le_of_lt hj)
  rcases turn_succ hcounter h hin hturn with ⟨hgt, -⟩ | ⟨-, hrepeated, -⟩
  · exact absurd hgt (hle k (Nat.le_refl k))
  · exact ⟨h.pass hin, hrepeated⟩

/-- The turn at whose end the number is exceeded is the last one. -/
theorem finished_of_exceeded (hcounter : Counter m m₁ i y body) (h : Continues i m₁ a b)
    (hx : m₁.memory.fetch i = x) (hle : ∀ j < k, ¬ counted x (j + 1) > y)
    (hgt : counted x (k + 1) > y) :
  Pass i m₁.loops.size (a k) (b k) ∧ Finished i (counted x (k + 1)) m.loops (b k) (a (k + 1))
  := by
  obtain ⟨hin, hturn⟩ := turn_of_not_exceeded hcounter h hx hle
  rcases turn_succ hcounter h hin hturn with ⟨-, hfinished⟩ | ⟨hngt, -⟩
  · exact ⟨h.pass hin, hfinished⟩
  · exact absurd hgt hngt

/-! ### The whole loop -/

/-- A `FOR` that is executed gives its slot a first number and enters a loop.  In every continuation
in which the body comes to the `NEXT` of the loop each time that it is passed, with the number in
the slot as it was, it is passed as often as one has to be added until the target is exceeded.
Then the slot has the number that exceeds it, the loops are those before the `FOR`, and the machine
goes on after the `NEXT`.  If the target is never exceeded, as when it is not a number, the loop is
never left.  From one whole number to another one, one is added until the slot has the whole number
after the larger of the two. -/
theorem for_passes_body (hnext : Cursor.next m.cursor = .ok (.keyword .forWord) c)
    (hstep : step m = .ok none m₁) :
  ∃ i x y c₁ c₂, Reading.assignment m.memory c = .ok (i, x) c₁ ∧
    Reading.target (m.memory.store i x) c₁ = .ok y c₂ ∧
    m₁ = { m with
      cursor := c₂
      memory := m.memory.store i x
      loops := m₁.loops
      statement := c.start } ∧
    m₁.loops.size = m.loops.size + 1 ∧
    (∀ a b, Continues i m₁ a b →
      (∀ n, Exceeds x y (n + 1) →
        (∀ k ≤ n, Pass i m₁.loops.size (a k) (b k)) ∧
        (∀ k < n, Repeated i (counted x (k + 1)) c₂.pos (b k) (a (k + 1))) ∧
        Finished i (counted x (n + 1)) m.loops (b n) (a (n + 1))) ∧
      ((∀ n, ¬ Exceeds x y n) → ∀ k,
        Pass i m₁.loops.size (a k) (b k) ∧
        Repeated i (counted x (k + 1)) c₂.pos (b k) (a (k + 1)))) ∧
    (y.isNaN = true → ∀ n, ¬ Exceeds x y n) ∧
    ∀ p q : Int, Whole x p → Whole y q → p.natAbs < 2 ^ 53 → q.natAbs < 2 ^ 53 →
      Exceeds x y (max 1 (q - p + 1)).toNat ∧
      Whole (counted x (max 1 (q - p + 1)).toNat) (max p q + 1)
  := by
  obtain ⟨i, x, y, c₁, c₂, hassign, htarget, hm, hcounter⟩ := exists_counter hnext hstep
  have hx : m₁.memory.fetch i = x := by
    rw [hm, Memory.fetch_store, if_pos rfl]
  refine ⟨i, x, y, c₁, c₂, hassign, htarget, hm, hcounter.size_eq, ?_,
    Number.not_exceeds_of_isNaN, fun p q => Number.exceeds_of_whole⟩
  intro a b h
  constructor
  · intro n hn
    obtain ⟨hgt, hnot⟩ := Number.exceeds_succ_iff.mp hn
    have hlast := finished_of_exceeded hcounter h hx hnot hgt
    have hbefore : ∀ k < n, Pass i m₁.loops.size (a k) (b k) ∧
        Repeated i (counted x (k + 1)) c₂.pos (b k) (a (k + 1)) := by
      intro k hk
      apply repeated_of_not_exceeded hcounter h hx
      intro j hj
      apply hnot j (Nat.lt_of_le_of_lt hj hk)
    refine ⟨?_, fun k hk => (hbefore k hk).2, hlast.2⟩
    intro k hk
    rcases hk.lt_or_eq with hlt | rfl
    · apply (hbefore k hlt).1
    · apply hlast.1
  · intro hnever k
    apply repeated_of_not_exceeded hcounter h hx
    intro j _
    apply Number.not_gt_of_not_exceeds hnever

/-- The machine after `k` statements of a program in which the body of a loop is a loop itself. -/
def counting : Nat → Machine
  | 0 => ((ofString "FOR A = 1 TO 2 FOR B = 1 TO 1 NEXT NEXT").execute 0).2
  | k + 1 => left (step (counting k))

/-- What a `FOR` reads: its slot, the first number and the target. -/
def bounds (m : Machine) : Reading (Slot × Float × Float) := do
  let _ ← Cursor.next
  let (i, x) ← Reading.assignment m.memory
  let y ← Reading.target (m.memory.store i x)
  return (i, x, y)

/-- How the statements of the program come out, and where the `NEXT` of the first loop is. -/
theorem counting_run :
  (∀ k < 7, (counting k).phase = .running ∧ value? (step (counting k)) = some none) ∧
  (counting 0).Begins .forWord ∧
  value? ((counting 0).bounds (counting 0).cursor) = some (0, 1.0, 2.0) ∧
  (∀ k < 7, AtNext 1 (counting k) ↔ k = 3 ∨ k = 6) ∧
  (∀ k ≤ 6, 1 ≤ k → 1 ≤ (counting k).loops.size) ∧
  (counting 1).loops.size = 1 ∧ (counting 7).loops.size = 0 ∧
  ∀ k ≤ 1, (counting (3 * k + 3)).memory.fetch 0 = (counting (3 * k + 1)).memory.fetch 0
  := by
  decide +kernel

theorem step_counting (hk : k < 7) :
  step (counting k) = .ok none (counting (k + 1))
  := eq_ok_of_value? (counting_run.1 k hk).2

theorem inside_counting (hk : k < 7) (hpos : 1 ≤ k) (h₃ : k ≠ 3) (h₆ : k ≠ 6) :
  Inside 1 (counting k) (counting (k + 1))
  := by
  obtain ⟨hrun, -, -, hat, hdepth, -⟩ := counting_run
  refine ⟨.statement (hrun k hk).1 (step_counting hk), hdepth (k + 1) (by omega) (by omega), ?_⟩
  intro hnext
  have hor := (hat k hk).mp hnext
  omega

theorem pass_counting (hk : k ≤ 1) :
  Pass 0 1 (counting (3 * k + 1)) (counting (3 * k + 3))
  where
  inside := by
    have hfirst : Inside 1 (counting (3 * k + 1)) (counting (3 * k + 2)) := by
      apply inside_counting <;> omega
    apply (ReflTransGen.single hfirst).tail
    apply inside_counting <;> omega
  atNext := by
    obtain ⟨-, -, -, hat, -⟩ := counting_run
    apply (hat _ _).mpr <;> omega
  fetch_eq := by
    obtain ⟨-, -, -, -, -, -, -, hfetch⟩ := counting_run
    apply hfetch k hk

theorem continues_counting :
  Continues 0 (counting 1) (fun k => counting (3 * k + 1)) (fun k => counting (3 * k + 3))
  := by
  obtain ⟨-, -, -, -, -, hsize, hsize', -⟩ := counting_run
  have hstep : ∀ k < 7, step (counting k) = .ok none (counting (k + 1)) := fun k => step_counting
  have hpass : ∀ k ≤ 1, Pass 0 1 (counting (3 * k + 1)) (counting (3 * k + 3)) :=
    fun k => pass_counting
  -- Nothing else is needed about the machines, which are not to be computed again.
  generalize counting = n at hsize hsize' hstep hpass ⊢
  -- The third turn does not start, because the loop has been left before.
  have hle : ∀ {k}, InLoop (n 1) (fun k => n (3 * k + 1)) k → k ≤ 1 := by
    intro k hin
    apply Nat.le_of_not_lt
    intro hk
    cases hsize'.symm.trans ((hin 2 hk).trans hsize)
  refine ⟨rfl, ?_, ?_⟩
  · intro k hin
    rw [hsize]
    apply hpass k (hle hin)
  · intro k hin
    have hk := hle hin
    apply hstep
    omega

theorem bounds_eq {c₁ c₂ : Cursor} (hnext : Cursor.next m.cursor = .ok (.keyword .forWord) c)
    (hassign : Reading.assignment m.memory c = .ok (i, x) c₁)
    (htarget : Reading.target (m.memory.store i x) c₁ = .ok y c₂) :
  m.bounds m.cursor = .ok (i, x, y) c₂
  := by
  rw [bounds, bind_of_ok hnext, bind_of_ok hassign]
  exact bind_of_ok htarget _

/-- The body of the loop over `A` is passed twice, each time with the whole loop over `B`, and
leaves `A` with three. -/
theorem for_passes_body_twice :
  (∀ k ≤ 1, Pass 0 1 (counting (3 * k + 1)) (counting (3 * k + 3))) ∧
  Finished 0 (counted 1.0 2) (counting 0).loops (counting 6) (counting 7) ∧
  Whole (counted 1.0 2) 3
  := by
  have htwo : Whole 2.0 2 := ⟨by decide +kernel, by decide +kernel⟩
  have hstep := step_counting (k := 0) (by decide)
  have hcontinues := continues_counting
  have hpass : ∀ k ≤ 1, Pass 0 1 (counting (3 * k + 1)) (counting (3 * k + 3)) :=
    fun k => pass_counting
  obtain ⟨-, ⟨c, hnext⟩, hbounds, -⟩ := counting_run
  generalize counting = n at hstep hcontinues hpass hnext hbounds ⊢
  obtain ⟨i, x, y, c₁, c₂, hassign, htarget, -, -, hpasses, -, hwhole⟩ :=
    for_passes_body hnext hstep
  rw [bounds_eq hnext hassign htarget] at hbounds
  cases hbounds
  obtain ⟨hexceeds, hthree⟩ := hwhole 1 2 Number.whole_one htwo (by decide) (by decide)
  obtain ⟨-, -, hfinished⟩ := (hpasses _ _ hcontinues).1 1 hexceeds
  exact ⟨hpass, hfinished, hthree⟩

end Machine

end LineBasic
