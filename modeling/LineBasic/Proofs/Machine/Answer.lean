import LineBasic.Proofs.Machine.Fault

/-!
# Answers to requests for input

A machine that asks for a number repeats its request until it is answered.  One answer settles
the request: a number is stored in the slot that has been named, any other line leads to one
warning, and the end of input to one fault.  A machine that does not ask takes no answer.
-/

namespace LineBasic

open Program
open Line (terminators)
open Cursor (Reads)

namespace Machine

open Execution

variable {s : Source} {m m' : Machine} {prompt : String} {i : Slot} {n : Nat}

/-! ### Executing again and again -/

/-- A machine that reports the same event whenever it is executed, and is left as it is. -/
def Repeats (m : Machine) (e : Event) : Prop :=
  ∀ ns : List Nat, m.performAll (ns.map .execute) = (List.replicate ns.length e, m)

theorem repeats_of_execute {e : Event} (h : ∀ n, m.execute n = (e, m)) :
  m.Repeats e
  := by
  intro ns
  induction ns with
  | nil => rfl
  | cons n ns ih =>
    rw [List.map_cons, performAll, perform, h]
    simp only
    rw [ih]
    rfl

theorem repeats_of_awaiting (h : m.phase = .awaiting prompt i) :
  m.Repeats (.input prompt)
  := by
  apply repeats_of_execute
  intro n
  rw [execute, h]

theorem repeats_of_stopped (h : m.phase = .stopped) :
  m.Repeats .stopped
  := by
  apply repeats_of_execute
  intro n
  rw [execute, h]

/-! ### Requests -/

/-- The machine has just executed the statement at an offset, which asks with a prompt for the
number of a slot, and its cursor is after the name of this slot. -/
inductive Requests (s : Source) (prompt : String) (i : Slot) : Nat → Machine → Prop
  | intro {m : Machine} {c d c' : Cursor} {name : String} (hreach : Reachable s m)
    (hrun : m.phase = .running) (hinput : Cursor.next m.cursor = .ok (.keyword .inputWord) c)
    (hprompt : c = d ∧ prompt = "? " ∨ Reads c [.quoted prompt, .delimiter .comma] d)
    (hname : Cursor.next d = .ok (.name name) c') (hslot : Slot.ofName? name = some i) :
    Requests s prompt i m.head
      { m with cursor := c', phase := .awaiting prompt i, statement := c.start }

theorem Requests.phase_eq {a : Nat} (h : Requests s prompt i a m) :
  m.phase = .awaiting prompt i
  := by
  cases h
  rfl

/-- A machine that has asked has just executed the statement that asks. -/
theorem exists_requests (h : Asked s prompt m) :
  ∃ i a, Requests s prompt i a m ∧ (Fault.of .inputUnreadable).orInLine m.line =
    (Fault.of .inputUnreadable).inLine (terminators s.chars a + 1)
  := by
  obtain ⟨m₀, hreach, hrun, hstep⟩ := h
  obtain ⟨hplaced, hline⟩ := placed_of_request hreach.settled hstep
  rw [hplaced] at hline
  have hnumber := Option.some.inj hline.line?_eq
  obtain ⟨c, c', i, hnext, hrequest, rfl⟩ := exists_request_of_step hstep
  obtain ⟨d, name, hprompt, hname, hslot⟩ := Reading.request_eq_ok_iff.mp hrequest
  refine ⟨i, m₀.head, .intro hreach hrun hnext hprompt hname hslot, ?_⟩
  rw [hplaced, hnumber]

/-- What asks has asked. -/
theorem asked_of_execute (h : Reachable s m) (hm : m.execute n = (.input prompt, m')) :
  Asked s prompt m'
  := by
  rcases exists_ends hm Event.noConfusion with ⟨k, -, m₁, hrun, hphase, hends⟩ | hzero
  · cases hends with
    | event hstep => exact ⟨m₁, h.execute hrun, hphase, hstep⟩
  · cases hphase : m.phase with
    | awaiting prompt' i =>
      rw [execute, hphase] at hzero
      cases hzero
      apply h.origin.1 _ _ hphase
    | ready =>
      rw [execute, hphase] at hzero
      simp only at hzero
      split at hzero
      · cases hzero
      · cases hzero
    | running | warned | failing | stopped =>
      rw [execute, hphase] at hzero
      cases hzero

/-! ### Answers -/

/-- The machine that goes on where the request has left it, with a number entered: the slot that
was asked for holds it, and nothing else has changed. -/
structure Entered (i : Slot) (x : Float) (m m' : Machine) : Prop where
  fetch_eq : m'.memory.fetch i = x
  fetch_ne : ∀ j, j ≠ i → m'.memory.fetch j = m.memory.fetch j
  eq_with : m' = { m with phase := .running, memory := m'.memory }

/-- A number that is entered is stored. -/
theorem entered_of_number {line : String} {x : Float} (h : m.phase = .awaiting prompt i)
    (hx : Number.ofChars? (trimmed line.toList) = some x) :
  Entered i x m (m.enter line)
  := by
  rw [enter, h]
  simp only
  rw [hx]
  constructor
  · rw [Memory.fetch_store, if_pos rfl]
  · intro j hj
    rw [Memory.fetch_store, if_neg (Ne.symm hj)]
  · rfl

/-- Anything else that is entered leads to a warning. -/
theorem enter_of_none {line : String} (h : m.phase = .awaiting prompt i)
    (hx : Number.ofChars? (trimmed line.toList) = none) :
  m.enter line = { m with phase := .warned }
  := by
  rw [enter, h]
  simp only
  rw [hx]

/-- A machine that does not ask takes no answer. -/
theorem enter_of_ne_awaiting (h : ∀ prompt i, m.phase ≠ .awaiting prompt i) (line : String) :
  m.enter line = m
  := by
  rw [enter]
  split
  · next hphase => exact absurd hphase (h _ _)
  · rfl

theorem endOfInput_of_ne_awaiting (h : ∀ prompt i, m.phase ≠ .awaiting prompt i) :
  m.endOfInput = m
  := by
  rw [endOfInput]
  split
  · next hphase => exact absurd hphase (h _ _)
  · rfl

/-- What a line comes to that is entered where a machine asks for the number of a slot, if the text
is left of it without the white space around it.  A number is stored in the slot, and the machine
goes on at its cursor.  Any other text leaves memory alone, and the machine gives one warning before
it goes on there.  Neither can be followed by another answer. -/
structure Takes (i : Slot) (m : Machine) (line : String) (text : List Char) : Prop where
  number : ∀ x, Number.ofChars? text = some x →
    Entered i x m (m.enter line) ∧ ∀ k, (m.enter line).execute k = (m.enter line).proceed k
  other : Number.ofChars? text = none →
    (m.enter line).memory = m.memory ∧
      ∀ k, (m.enter line).execute k =
          (.warning "INVALID INPUT", { m with phase := .running }) ∧
        execute k { m with phase := .running } = proceed k { m with phase := .running }
  once : ∀ line', (m.enter line).enter line' = m.enter line ∧
    (m.enter line).endOfInput = m.enter line

/-- A machine that asks takes whatever is entered. -/
theorem takes_trimmed (h : m.phase = .awaiting prompt i) (line : String) :
  Takes i m line (trimmed line.toList)
  := by
  constructor
  · intro x hx
    have hentered := entered_of_number h hx
    refine ⟨hentered, fun k => execute_of_running ?_ k⟩
    rw [hentered.eq_with]
  · intro hx
    rw [enter_of_none h hx]
    exact ⟨rfl, fun k => ⟨rfl, execute_of_running rfl k⟩⟩
  · intro line'
    have hanswered : ∀ prompt i, (m.enter line).phase ≠ .awaiting prompt i := by
      intro prompt' i'
      rw [enter, h]
      simp only
      split
      all_goals exact Phase.noConfusion
    exact ⟨enter_of_ne_awaiting hanswered line', endOfInput_of_ne_awaiting hanswered⟩

/-- A machine that reports a request for input has just executed the statement that asks, with its
cursor after the name of the variable.  It repeats the request and is left as it is.  Where a line
is entered that is the text of a number with white space around it, the number is stored in the
slot and nowhere else, and the machine goes on at its cursor.  Where any other line is entered,
memory is left alone, and the machine gives one warning before it goes on.  Where input ends, it
reports one fault in the line of the statement, and has then stopped.  No second answer is taken,
nor any answer in a machine that does not ask. -/
theorem requests_take_one_answer (h : Reachable s m) :
  (∀ n prompt m', m.execute n = (.input prompt, m') →
    ∃ i a, Requests s prompt i a m' ∧ m'.Repeats (.input prompt) ∧
      (∀ line, ∃ text, Surrounds line.toList text ∧ Takes i m' line text) ∧
      (∀ k, m'.endOfInput.execute k =
        (.fault ((Fault.of .inputUnreadable).inLine (terminators s.chars a + 1)),
          { m' with phase := .stopped })) ∧
      Repeats { m' with phase := .stopped } .stopped) ∧
  ((∀ prompt i, m.phase ≠ .awaiting prompt i) →
    (∀ line, m.enter line = m) ∧ m.endOfInput = m)
  := by
  constructor
  · intro n prompt m' hm
    obtain ⟨i, a, hrequests, hline⟩ := exists_requests (asked_of_execute h hm)
    have hphase := hrequests.phase_eq
    refine ⟨i, a, hrequests, repeats_of_awaiting hphase, ?_, ?_, repeats_of_stopped rfl⟩
    · intro line
      exact ⟨trimmed line.toList, trimmed_eq_iff.mp rfl, takes_trimmed hphase line⟩
    · intro k
      rw [endOfInput, hphase]
      simp only
      rw [hline, execute]
  · intro hphase
    exact ⟨enter_of_ne_awaiting hphase, endOfInput_of_ne_awaiting hphase⟩

/-- A program that asks for a number in its second line: a number with blanks around it is stored,
any other word leads to a warning, and the end of input to a fault in the second line.  Before the
program asks, nothing can be entered. -/
theorem requests_take_one_answer_in_second_line :
  (∃ m' a, (ofString "A = 1\nINPUT \"B\", B PRINT B").execute 9 = (.input "B", m') ∧
    Requests (.ofString "A = 1\nINPUT \"B\", B PRINT B") "B" 1 a m' ∧
    (∃ x, Number.ofChars? "2.5".toList = some x ∧ Entered 1 x m' (m'.enter " 2.5\t")) ∧
    (m'.enter "two").execute 7 = (.warning "INVALID INPUT", { m' with phase := .running }) ∧
    m'.endOfInput.execute 0 =
      (.fault ⟨.inputUnreadable, some 2, ""⟩, { m' with phase := .stopped })) ∧
  (ofString "A = 1\nINPUT \"B\", B PRINT B").enter "3" =
    ofString "A = 1\nINPUT \"B\", B PRINT B"
  := by
  have hnew : Reachable (.ofString "A = 1\nINPUT \"B\", B PRINT B")
      (ofString "A = 1\nINPUT \"B\", B PRINT B") := reachable_ofSource _
  obtain ⟨hasked, hready⟩ := requests_take_one_answer hnew
  constructor
  · have hevent : ((ofString "A = 1\nINPUT \"B\", B PRINT B").execute 9).1 = .input "B" ∧
        ((ofString "A = 1\nINPUT \"B\", B PRINT B").execute 9).2.phase = .awaiting "B" 1 ∧
        (((ofString "A = 1\nINPUT \"B\", B PRINT B").execute 9).2.endOfInput.execute 0).1 =
          .fault ⟨.inputUnreadable, some 2, ""⟩ := by
      decide +kernel
    generalize hx : (ofString "A = 1\nINPUT \"B\", B PRINT B").execute 9 = x at hevent
    obtain ⟨_, m'⟩ := x
    obtain ⟨rfl, hphase, hfault⟩ := hevent
    obtain ⟨i, a, hrequests, -, hlines, hend, -⟩ := hasked 9 "B" m' hx
    obtain rfl : i = 1 := by
      rw [hrequests.phase_eq] at hphase
      cases hphase
      rfl
    refine ⟨m', a, rfl, hrequests, ?_, ?_, ?_⟩
    · obtain ⟨x, hnumber⟩ : ∃ x, Number.ofChars? "2.5".toList = some x := by
        apply Option.isSome_iff_exists.mp
        decide +kernel
      obtain ⟨text, htext, htakes⟩ := hlines " 2.5\t"
      have htrimmed : trimmed " 2.5\t".toList = "2.5".toList := by
        decide +kernel
      rw [← trimmed_eq_iff.mpr htext, htrimmed] at htakes
      exact ⟨x, hnumber, (htakes.number x hnumber).1⟩
    · obtain ⟨text, htext, htakes⟩ := hlines "two"
      have hnone : Number.ofChars? (trimmed "two".toList) = none := by
        decide +kernel
      rw [trimmed_eq_iff.mpr htext] at hnone
      exact ((htakes.other hnone).2 7).1
    · rw [hend] at hfault ⊢
      exact Prod.ext hfault rfl
  · apply (hready _).1
    rintro _ _ ⟨⟩

end Machine

end LineBasic
