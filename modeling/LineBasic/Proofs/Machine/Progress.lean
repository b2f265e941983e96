import LineBasic.Proofs.Cursor.Tokens
import LineBasic.Proofs.Machine.Boundary
import LineBasic.Proofs.Machine.History
import LineBasic.Proofs.Machine.Straight

/-!
# Progress

A statement that does not jump takes up characters of the source, and none of them is read again
before a jump.  A program without jumps therefore executes no more statements than it has
characters, and every run of it comes to its end after a number of events that is known
beforehand.
-/

namespace LineBasic

open Program

/-- No line of the source has a word of a statement that jumps. -/
def Source.Straight (s : Source) : Prop :=
  ∀ l ∈ Line.split s.chars, ∀ t ∈ (Line.lex l).tokens, t.isJump = false

instance (s : Source) : Decidable s.Straight :=
  inferInstanceAs (Decidable (∀ l ∈ Line.split s.chars, ∀ t ∈ (Line.lex l).tokens, t.isJump = false))

namespace Machine

open Execution

variable {s : Source} {m m' : Machine} {e? : Option Event} {e : Event} {n : Nat}

/-! ### Statements -/

/-- A statement that does not jump and does not stop the program takes up a character. -/
theorem pos_lt_of_step (hm : Settled s m) (h : step m = .ok e? m') (hjumps : ¬ m.Jumps)
    (he : e? ≠ some .stopped) :
  m.cursor.pos < m'.cursor.pos
  := by
  cases hnext : Cursor.next m.cursor with
  | error f c =>
    rw [step_of_next_error hnext] at h
    cases h
  | ok t c =>
    have ht : t ≠ .endOfProgram := by
      rintro rfl
      have hstop := (step_eq_iff hnext).mp h
      cases hstop
      exact absurd rfl he
    have hlt := Cursor.remaining_lt_of_next hnext ht
    rw [Cursor.remaining_eq, Cursor.remaining_eq,
      (Cursor.keeps_ahead_next.of_ok hnext).source_eq] at hlt
    have hle := (straight_of_step hm.cursor.source_eq hm.cursor.within hnext h hjumps).1
    omega

/-- Where no line has a word of a statement that jumps, no statement jumps. -/
theorem not_jumps (hs : s.Straight) (hm : Settled s m) :
  ¬ m.Jumps
  := by
  intro hjumps
  obtain ⟨k, c, hnext, hk⟩ := hjumps.exists_isJump
  obtain ⟨l, hl, hmem⟩ := hm.cursor.exists_line hnext rfl
  have hnot : k.isJump = false := hs l hl _ hmem
  rw [hnot] at hk
  contradiction

/-! ### Executions -/

/-- Every statement of an execution takes up a character. -/
theorem pos_add_le_of_proceed (hs : s.Straight) (h : Reachable s m) (hrun : m.phase = .running)
    (hp : m.proceed n = (.running, m')) :
  m.cursor.pos + n ≤ m'.cursor.pos
  := by
  induction n generalizing m with
  | zero =>
    cases hp
    apply Nat.le_refl
  | succ n ih =>
    rw [proceed] at hp
    cases hstep : step m with
    | ok e? m₁ =>
      rw [hstep] at hp
      cases e? with
      | none =>
        have hlt := pos_lt_of_step h.settled hstep (not_jumps hs h.settled) (by rintro ⟨⟩)
        have hrest := ih (h.move (.statement hrun hstep)) ((phase_of_step hstep).trans hrun) hp
        omega
      | some e =>
        cases hp
        exact absurd rfl (event_of_step hstep)
    | error f m₁ =>
      rw [hstep] at hp
      cases hp

/-- What an execution of a running machine comes to, unless there is nothing to execute: the event
is the last one, or characters have been taken up. -/
inductive Advances (m : Machine) : Event → Machine → Prop
  | running {m' : Machine} (hlt : m.cursor.pos < m'.cursor.pos) (hphase : m'.phase = .running) :
    Advances m .running m'
  | print {m' : Machine} {text : String} (hlt : m.cursor.pos < m'.cursor.pos)
    (hphase : m'.phase = .running) : Advances m (.print text) m'
  | input {m' : Machine} {prompt : String} {i : Slot} (hlt : m.cursor.pos < m'.cursor.pos)
    (hphase : m'.phase = .awaiting prompt i) : Advances m (.input prompt) m'
  | stopped {m' : Machine} : Advances m .stopped m'
  | fault {m' : Machine} {f : Fault} (hphase : m'.phase = .stopped) : Advances m (.fault f) m'

theorem advances_of_proceed (hs : s.Straight) (h : Reachable s m) (hrun : m.phase = .running)
    (hn : 0 < n) (hp : m.proceed n = (e, m')) :
  Advances m e m'
  := by
  by_cases he : e = .running
  · subst he
    have hle := pos_add_le_of_proceed hs h hrun hp
    exact .running (by omega) (proceed_of_running hp hrun).1
  · obtain ⟨k, -, m₁, hk, hends⟩ := exists_ends_of_proceed hp he
    have hreach : Reachable s m₁ := h.execute ((execute_of_running hrun k).trans hk)
    have hle := pos_add_le_of_proceed hs h hrun hk
    cases hends with
    | fault => exact .fault rfl
    | event hstep =>
      have hreports := reports_of_step hstep
      rw [(proceed_of_running hk hrun).1] at hreports
      have hjumps := not_jumps hs hreach.settled
      generalize hphase : m'.phase = p at hreports
      cases hreports with
      | print =>
        have hlt := pos_lt_of_step hreach.settled hstep hjumps (by rintro ⟨⟩)
        exact .print (by omega) hphase
      | input =>
        have hlt := pos_lt_of_step hreach.settled hstep hjumps (by rintro ⟨⟩)
        exact .input (by omega) hphase
      | stopped => exact .stopped

/-- No more statements are executed than there are characters. -/
theorem execute_ne_running (hs : s.Straight) (h : Reachable s m) (hn : s.size < n) :
  (m.execute n).1 ≠ .running
  := by
  have hproceed : ∀ {m₁ : Machine}, Reachable s m₁ → m₁.phase = .running →
      (m₁.proceed n).1 ≠ .running := by
    intro m₁ hreach hrun he
    have hp : m₁.proceed n = (.running, (m₁.proceed n).2) := Prod.ext he rfl
    have hreach' := hreach.execute ((execute_of_running hrun n).trans hp)
    have hle := pos_add_le_of_proceed hs hreach hrun hp
    have hsize := hreach'.settled.cursor.pos.le_size
    omega
  cases hphase : m.phase with
  | ready =>
    cases hstart : start m with
    | ok _ m₀ =>
      rw [execute_of_start_ok hphase hstart]
      apply hproceed _ (phase_of_start hstart)
      exact h.execute (execute_of_start_ok hphase hstart 0)
    | error f m₀ =>
      rw [execute_of_start_error hphase hstart]
      apply Event.noConfusion
  | running =>
    rw [execute_of_running hphase]
    apply hproceed h hphase
  | warned | awaiting | failing | stopped =>
    rw [execute, hphase]
    apply Event.noConfusion

/-! ### Runs -/

/-- How many events there are at most until it is reported that the program has stopped, that event
included, where every request for input is answered: two for every character that is left, as a
request for input takes up one at least and leads to one warning at most. -/
def bound (m : Machine) : Nat :=
  match m.phase with
  | .ready => 2 * m.cursor.source.size + 2
  | .running => 2 * m.cursor.remaining + 2
  | .warned => 2 * m.cursor.remaining + 3
  | .awaiting _ _ => 2 * m.cursor.remaining + 4
  | .failing _ => 2
  | .stopped => 1

theorem bound_pos (m : Machine) :
  0 < m.bound
  := by
  rw [bound]
  split
  all_goals omega

theorem bound_le (hm : Settled s m) :
  m.bound ≤ 2 * s.size + 4
  := by
  have hle : m.cursor.remaining ≤ s.size := by
    rw [← hm.cursor.source_eq]
    apply Nat.sub_le
  have hsource := hm.cursor.source_eq
  rw [bound]
  split
  all_goals
    try rw [hsource]
    omega

/-- An answer leaves room for one warning. -/
theorem bound_answer_le {prompt : String} {i : Slot} (h : m.phase = .awaiting prompt i)
    (a : Answer) :
  (m.answer a).bound ≤ 2 * m.cursor.remaining + 3
  := by
  cases a with
  | line text =>
    rw [answer, enter, h]
    simp only
    split
    · apply Nat.le_succ
    · apply Nat.le_refl
  | endOfInput =>
    rw [answer, endOfInput, h]
    apply Nat.le_add_left

/-- With characters that are taken up, the bound gets lower. -/
theorem Advances.bound_lt (h : Advances m e m') (hm : Settled s m) (hm' : Settled s m')
    (a : Answer) (as : List Answer) :
  e = .stopped ∨ (reply e (a :: as) m').2.bound < 2 * m.cursor.remaining + 2
  := by
  have hremaining : m.cursor.pos < m'.cursor.pos →
      m'.cursor.remaining < m.cursor.remaining := by
    intro hlt
    have hle := hm'.cursor.pos.le_size
    rw [Cursor.remaining, Cursor.remaining, hm.cursor.source_eq, hm'.cursor.source_eq]
    omega
  cases h with
  | running hlt hphase | print hlt hphase =>
    have hrest := hremaining hlt
    apply Or.inr
    change m'.bound < _
    rw [bound, hphase]
    simp only
    omega
  | input hlt hphase =>
    have hrest := hremaining hlt
    have hle := bound_answer_le hphase a
    apply Or.inr
    change (m'.answer a).bound < _
    omega
  | stopped => exact .inl rfl
  | fault hphase =>
    apply Or.inr
    change m'.bound < _
    rw [bound, hphase]
    simp only
    omega

/-- Every event lowers the bound, where requests for input are answered. -/
theorem bound_reply_lt (hs : s.Straight) (h : Reachable s m) (hn : 0 < n)
    (hm : m.execute n = (e, m')) (a : Answer) (as : List Answer) :
  e = .stopped ∨ (reply e (a :: as) m').2.bound < m.bound
  := by
  have hreach := h.execute hm
  rw [bound.eq_def m]
  cases hphase : m.phase with
  | ready =>
    cases hstart : start m with
    | ok _ m₀ =>
      have hreach₀ := h.execute (execute_of_start_ok hphase hstart 0)
      have hrun := phase_of_start hstart
      rw [execute_of_start_ok hphase hstart] at hm
      have hadvances := advances_of_proceed hs hreach₀ hrun hn hm
      have hlt := hadvances.bound_lt hreach₀.settled hreach.settled a as
      have hle : m₀.cursor.remaining ≤ m.cursor.source.size := by
        rw [h.settled.cursor.source_eq, ← hreach₀.settled.cursor.source_eq]
        apply Nat.sub_le
      apply hlt.imp_right
      intro hlt
      simp only
      omega
    | error f m₀ =>
      rw [execute_of_start_error hphase hstart] at hm
      cases hm
      apply Or.inr
      change 1 < _
      simp only
      omega
  | running =>
    rw [execute_of_running hphase] at hm
    have hadvances := advances_of_proceed hs h hphase hn hm
    apply hadvances.bound_lt h.settled hreach.settled
  | warned =>
    rw [execute, hphase] at hm
    cases hm
    exact .inr (Nat.lt_succ_self _)
  | awaiting =>
    rw [execute, hphase] at hm
    cases hm
    exact .inr (Nat.lt_succ_of_le (bound_answer_le hphase a))
  | failing =>
    rw [execute, hphase] at hm
    cases hm
    exact .inr (Nat.lt_succ_self _)
  | stopped =>
    rw [execute, hphase] at hm
    cases hm
    exact .inl rfl

theorem Reachable.reply (h : Reachable s m) (e : Event) (as : List Answer) :
  Reachable s (reply e as m).2
  := by
  rw [Machine.reply.eq_def]
  split
  · next a _ =>
    cases a with
    | line text => exact h.perform (.enter text)
    | endOfInput => exact h.perform .endOfInput
  · exact h

/-- No event takes more than one answer. -/
theorem length_le_reply (e : Event) (a : Answer) (as : List Answer) (m : Machine) :
  as.length ≤ (reply e (a :: as) m).1.length
  := by
  rw [reply.eq_def]
  split
  · next heq =>
    cases heq
    apply Nat.le_refl
  · apply Nat.le_succ

/-- A driver that lets the program go on and answers it is told that it has stopped. -/
theorem stopped_mem_drive (hs : s.Straight) (k : Nat) :
  ∀ (m : Machine) (budgets : List Nat) (as : List Answer), Reachable s m → m.bound ≤ k →
    (∀ n ∈ budgets, 0 < n) → k ≤ budgets.length → k ≤ as.length →
    .stopped ∈ (m.drive budgets as).take k
  := by
  induction k with
  | zero =>
    intro m _ _ _ hbound
    exact absurd hbound (Nat.not_le_of_gt m.bound_pos)
  | succ k ih =>
    intro m budgets as h hbound hpos hbudgets has
    match budgets, as with
    | [], _ => cases hbudgets
    | _, [] => cases has
    | n :: budgets, a :: as =>
      rw [List.forall_mem_cons] at hpos
      rw [List.length_cons] at hbudgets has
      generalize hx : m.execute n = x
      obtain ⟨e, m'⟩ := x
      have hreply := length_le_reply e a as m'
      have hreach := (h.execute hx).reply e (a :: as)
      rw [drive, hx]
      simp only
      rw [List.take_succ_cons]
      rcases bound_reply_lt hs h hpos.1 hx a as with rfl | hlt
      · apply List.mem_cons_self
      · apply List.mem_cons_of_mem
        apply ih _ _ _ hreach
        · omega
        · apply hpos.2
        · omega
        · omega

/-- A statement that does not jump and does not stop the program leaves the cursor after where it
has been.  In a source without words of statements that jump, no execution by more statements than
there are characters reports that the program runs, and every run is over after a number of events
that depends on the number of characters only, however many statements are executed at a time and
whatever is entered. -/
theorem only_jumps_run_long (h : Reachable s m) :
  (∀ e? m', step m = .ok e? m' → ¬ m.Jumps → e? ≠ some .stopped →
    m.cursor.pos < m'.cursor.pos) ∧
  (s.Straight →
    (∀ n, s.size < n → (m.execute n).1 ≠ .running) ∧
    ∀ (budgets : List Nat) (as : List Answer), (∀ n ∈ budgets, 0 < n) →
      2 * s.size + 4 ≤ budgets.length → 2 * s.size + 4 ≤ as.length →
      .stopped ∈ (m.drive budgets as).take (2 * s.size + 4))
  := by
  constructor
  · intro e? m' hstep hjumps he
    apply pos_lt_of_step h.settled hstep hjumps he
  · intro hs
    constructor
    · intro n hn
      apply execute_ne_running hs h hn
    · intro budgets as hpos hbudgets has
      exact stopped_mem_drive hs _ m budgets as h (bound_le h.settled) hpos hbudgets has

/-- A program that starts two loops and never goes back to them: its first statement, all of them at
once, and a run by one statement at a time, which is over after as many events as the bound says. -/
theorem only_jumps_run_long_in_two_lines :
  (∃ m', step (ofString "FOR A = 1 TO 9 INPUT B\nREPEAT PRINT B") = .ok none m' ∧
    0 < m'.cursor.pos) ∧
  ((ofString "FOR A = 1 TO 9 INPUT B\nREPEAT PRINT B").execute 38).1 ≠ .running ∧
  .stopped ∈ ((ofString "FOR A = 1 TO 9 INPUT B\nREPEAT PRINT B").drive (List.replicate 78 1)
    (List.replicate 78 (.line "7"))).take 78
  := by
  have hnew : Reachable (.ofString "FOR A = 1 TO 9 INPUT B\nREPEAT PRINT B")
      (ofString "FOR A = 1 TO 9 INPUT B\nREPEAT PRINT B") := reachable_ofSource _
  have hs : (Source.ofString "FOR A = 1 TO 9 INPUT B\nREPEAT PRINT B").Straight := by
    decide +kernel
  have hsize : (Source.ofString "FOR A = 1 TO 9 INPUT B\nREPEAT PRINT B").size = 37 := by
    decide +kernel
  obtain ⟨hstep, hlong⟩ := only_jumps_run_long hnew
  obtain ⟨hexecute, hdrive⟩ := hlong hs
  rw [hsize] at hexecute hdrive
  and_intros
  · have hok : value? (step (ofString "FOR A = 1 TO 9 INPUT B\nREPEAT PRINT B")) =
        some none := by
      decide +kernel
    have heq := eq_ok_of_value? hok
    exact ⟨_, heq, hstep none _ heq (not_jumps hs hnew.settled) (by rintro ⟨⟩)⟩
  · exact hexecute 38 (by decide)
  · apply hdrive
    · intro n hn
      rw [List.eq_of_mem_replicate hn]
      apply Nat.zero_lt_one
    · apply Nat.le_of_eq (List.length_replicate).symm
    · apply Nat.le_of_eq (List.length_replicate).symm

end Machine

end LineBasic
