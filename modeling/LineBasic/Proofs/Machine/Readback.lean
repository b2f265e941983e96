import LineBasic.Proofs.Expression.Literal
import LineBasic.Proofs.Machine.Control

/-!
# Entering printed numbers

The text of a number is read back wherever a program can read it: as an expression, and as the
answer to a request for input.  The white space around an answer is no part of it, and none of the
characters of a number is white space.
-/

namespace LineBasic

namespace Number

variable {x : Float} {c : Char}

theorem isSpace_of_isDigit (hc : c.isDigit = true) :
  isSpace c = false
  := by
  have hbounds : 48 ≤ c.toNat ∧ c.toNat ≤ 57 := Char.isDigit_iff_toNat.mp hc
  rw [← Bool.not_eq_true]
  intro hspace
  simp only [isSpace, Bool.or_eq_true, Bool.and_eq_true, decide_eq_true_eq] at hspace
  omega

/-- No character of the text of a number is white space. -/
theorem isSpace_of_mem_chars (h : c ∈ chars x) :
  isSpace c = false
  := by
  have hnan : ∀ c ∈ "NaN".toList, isSpace c = false := by simp [isSpace]
  have hinf : ∀ c ∈ "inf".toList, isSpace c = false := by simp [isSpace]
  have hunsigned : ∀ c ∈ (if isFinite x then (Decimal.shortest (magnitude x)).text else "inf".toList),
      isSpace c = false := by
    intro c hc
    split at hc
    · rcases Decimal.isDigit_or_eq_of_mem_text hc with hdigit | rfl
      · apply isSpace_of_isDigit hdigit
      · decide
    · apply hinf c hc
  rw [chars] at h
  split at h
  · apply hnan c h
  · simp only at h
    split at h
    · rcases List.mem_cons.mp h with rfl | h
      · decide
      · apply hunsigned c h
    · apply hunsigned c h

/-- What is left of the text of a number with white space around it is the text. -/
theorem trimmed_text (x : Float) {before after : String}
    (hbefore : ∀ c ∈ before.toList, isSpace c = true)
    (hafter : ∀ c ∈ after.toList, isSpace c = true) :
  trimmed (before ++ text x ++ after).toList = chars x
  := by
  apply trimmed_eq_iff.mpr
  constructor
  · refine ⟨before.toList, after.toList, ?_, hbefore, hafter⟩
    rw [String.toList_append, String.toList_append, text, String.toList_ofList, List.append_assoc]
  · intro c hc
    apply isSpace_of_mem_chars (List.mem_of_mem_head? hc)
  · intro c hc
    apply isSpace_of_mem_chars (List.mem_of_getLast? hc)

end Number

/-- Nothing is warned of where nothing is pending, and then nothing is. -/
theorem Control.Next.not_warning {n : Nat} {c c' : Control} {e? : Option Event}
    (h : Next (.execute n) c e? c') (hc : c.pending = none) :
  (∀ text, e? ≠ some (.warning text)) ∧ c'.pending = none
  := by
  cases h with
  | pending => cases hc
  | waiting | ended => exact ⟨fun _ => nofun, rfl⟩
  | started hleads | running hleads =>
    refine ⟨?_, rfl⟩
    rintro text ⟨⟩
    cases hleads

namespace Machine

variable {m : Machine}

/-- A machine with nothing to report gives no warning, however often it is executed. -/
theorem not_warning_of_executions (h : m.control.pending = none) (ns : List Nat) (text : String) :
  .warning text ∉ (m.performAll (ns.map .execute)).1
  := by
  induction ns generalizing m with
  | nil => exact List.not_mem_nil
  | cons n ns ih =>
    obtain ⟨hevent, hpending⟩ := (next_perform m (.execute n)).not_warning h
    rw [List.map_cons, performAll]
    simp only [List.mem_append, Option.mem_toList, not_or]
    exact ⟨hevent text, ih hpending⟩

/-- The text of a number is read back as this number.  If it is finite, it is evaluated to the number
with any memory, bit for bit, also if it is a zero with a sign, and the cursor is left at the end of
the text.  Any number, also one that is infinite or not a number, is entered where a machine asks for
one by its text with any white space around it: it is stored in the slot, and no warning is given
when the machine is executed. -/
theorem printed_numbers_read_back (x : Float) :
  (Number.isFinite x = true → ∀ memory,
    Reading.evaluate memory ((Source.ofString (Number.text x)).cursor 0) =
      .ok x ((Source.ofString (Number.text x)).cursor (Number.chars x).length)) ∧
  ∀ (m : Machine) prompt i (before after : String), m.phase = .awaiting prompt i →
    (∀ c ∈ before.toList, isSpace c = true) → (∀ c ∈ after.toList, isSpace c = true) →
    Entered i x m (m.enter (before ++ Number.text x ++ after)) ∧
      ∀ (ns : List Nat) text, .warning text ∉
        ((m.enter (before ++ Number.text x ++ after)).performAll (ns.map .execute)).1
  := by
  constructor
  · intro hx memory
    apply Expression.evaluate_text memory hx
  · intro m prompt i before after hphase hbefore hafter
    have hnumber : Number.ofChars? (trimmed (before ++ Number.text x ++ after).toList) = some x := by
      rw [Number.trimmed_text x hbefore hafter, Number.ofChars?_chars]
    have hentered := entered_of_number hphase hnumber
    refine ⟨hentered, not_warning_of_executions ?_⟩
    rw [hentered.eq_with]
    rfl

/-- The negative zero is evaluated from its text, and negative infinity is entered. -/
theorem printed_numbers_read_back_of_extremes :
  (Number.text (-0.0) = "-0" ∧ Reading.evaluate .zero ((Source.ofString "-0").cursor 0) =
    .ok (-0.0) ((Source.ofString "-0").cursor 2)) ∧
  ((ofString "INPUT A").execute 1).2.phase = .awaiting "? " 0 ∧
    Number.text (-1.0 / 0.0) = "-inf" ∧
    Entered 0 (-1.0 / 0.0) ((ofString "INPUT A").execute 1).2
      (((ofString "INPUT A").execute 1).2.enter "\t-inf \n") ∧
    ∀ (ns : List Nat) text, .warning text ∉
      ((((ofString "INPUT A").execute 1).2.enter "\t-inf \n").performAll (ns.map .execute)).1
  := by
  have hzero : Number.text (-0.0) = "-0" := by
    decide +kernel
  have hinfinity : Number.text (-1.0 / 0.0) = "-inf" := by
    decide +kernel
  have hphase : ((ofString "INPUT A").execute 1).2.phase = .awaiting "? " 0 := by
    decide +kernel
  constructor
  · have hevaluate := (printed_numbers_read_back (-0.0)).1 (by decide +kernel) .zero
    have hlength : (Number.chars (-0.0)).length = 2 := by
      decide +kernel
    rw [hzero, hlength] at hevaluate
    exact ⟨hzero, hevaluate⟩
  · have hentered := (printed_numbers_read_back (-1.0 / 0.0)).2 _ _ _ "\t" " \n" hphase
      (by simp [isSpace]) (by simp [isSpace])
    rw [hinfinity] at hentered
    exact ⟨hphase, hinfinity, hentered⟩

end Machine

end LineBasic
