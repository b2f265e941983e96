import LineBasic.Proofs.Cursor.Printed
import LineBasic.Proofs.Expression.Evaluation
import LineBasic.Proofs.Number.Power
import LineBasic.Proofs.Number.Readback

/-!
# Evaluating printed numbers

The text of a finite number is an expression.  Its sign is a token of its own, and the rest of it is
one number, since no character of a decimal fraction breaks it.  The value of the expression is the
number again: negating what is read after the sign restores it, also if it is a zero.
-/

namespace LineBasic

namespace Token

/-- The text of a decimal fraction spells one number. -/
theorem spells_text (d : Decimal) :
  Spells d.text (.number (String.ofList d.text))
  := by
  apply Spells.number
  constructor
  · apply d.exists_text_eq_cons
  · intro c hc
    rcases Decimal.isDigit_or_eq_of_mem_text hc with hdigit | rfl
    · apply not_breaks_of_isDigit hdigit
    · decide

end Token

namespace Expression

open Cursor (Reads)
open Number (isFinite isNegative magnitude ofMagnitude)

variable {x : Float} {c : Cursor} {d : Decimal}

/-- A number, with a minus sign in front if it is negative. -/
def literal (negative : Bool) (s : String) : Tree .comparison :=
  let number := Tree.number s
  .ofSum (.ofProduct (.ofPower (.ofSigned (if negative then .minus number else .ofPrimary number))))

/-- The text of a decimal fraction is read as one number. -/
theorem exists_next_text (hrest : c.rest = d.text) :
  ∃ c', Cursor.next c = .ok (.number (String.ofList d.text)) c' ∧ c'.skipBlanks.rest = []
  := by
  have hspells := Token.spells_text d
  have hblanks := hspells.dropWhile_append []
  have hskip : c.skipBlanks.rest = d.text ++ [] := by
    rw [List.append_nil] at hblanks ⊢
    rw [Cursor.rest_skipBlanks, hrest, hblanks]
  obtain ⟨c', hnext, hrest'⟩ := Cursor.exists_next_of_spells hspells hskip nofun
  refine ⟨c', hnext, ?_⟩
  rw [Cursor.rest_skipBlanks, hrest']
  rfl

/-- The sign and the number are read from the text of a number. -/
theorem exists_reads_literal (negative : Bool)
    (hrest : c.rest = if negative then '-' :: d.text else d.text) :
  ∃ c', Reads c (literal negative (String.ofList d.text)).tokens c' ∧ c'.skipBlanks.rest = []
  := by
  cases negative with
  | false =>
    obtain ⟨c', hnext, hend⟩ := exists_next_text hrest
    exact ⟨c', Cursor.reads_singleton_iff.mpr hnext, hend⟩
  | true =>
    have hskip : c.skipBlanks.rest = '-' :: d.text := by
      rw [Cursor.rest_skipBlanks, hrest]
      rfl
    have hminus : Token.scan? c.skipBlanks.rest = some (.delimiter .minus, 1) := by
      rw [hskip]
      apply Token.scan?_of_longest? rfl
    obtain ⟨c₁, hnext, hrest₁⟩ := Cursor.exists_next_of_scan? hminus
    rw [hskip] at hrest₁
    obtain ⟨c', hnext', hend⟩ := exists_next_text hrest₁
    exact ⟨c', .cons hnext (Cursor.reads_singleton_iff.mpr hnext'), hend⟩

/-- The expression in the text of a finite number has this number as its value. -/
theorem value_literal (m : Memory) (hx : isFinite x = true) :
  (literal (isNegative x) (String.ofList (Decimal.shortest (magnitude x)).text)).Defined m ∧
    (literal (isNegative x) (String.ofList (Decimal.shortest (magnitude x)).text)).value m = x
  := by
  have hnumber : Number.ofText? (String.ofList (Decimal.shortest (magnitude x)).text) =
      some (ofMagnitude false (magnitude x)) := by
    rw [Number.ofText?, String.toList_ofList, Number.ofChars?_text,
      Decimal.nearest_shortest (of_decide_eq_true hx)]
  have hmagnitude := Number.ofMagnitude_magnitude x
  cases hneg : isNegative x with
  | false =>
    rw [hneg] at hmagnitude
    simp only [literal, Bool.false_eq_true, if_false, Tree.Defined, Tree.value, hnumber]
    exact ⟨rfl, hmagnitude⟩
  | true =>
    simp only [literal, if_true, Tree.Defined, Tree.value, hnumber]
    exact ⟨rfl, Number.neg_ofMagnitude (Number.isNaN_of_isFinite hx) hneg⟩

/-- The text of a finite number is evaluated to this number, and nothing is left of it. -/
theorem evaluate_text (m : Memory) (hx : isFinite x = true) :
  Reading.evaluate m ((Source.ofString (Number.text x)).cursor 0) =
    .ok x ((Source.ofString (Number.text x)).cursor (Number.chars x).length)
  := by
  have hchars : (Source.ofString (Number.text x)).chars = Number.chars x := String.toList_ofList
  have hrest : ((Source.ofString (Number.text x)).cursor 0).rest =
      if isNegative x then '-' :: (Decimal.shortest (magnitude x)).text
        else (Decimal.shortest (magnitude x)).text := by
    rw [← Number.chars_of_isFinite hx, ← hchars, Cursor.rest_eq]
    rfl
  obtain ⟨c, hreads, hend⟩ := exists_reads_literal (isNegative x) hrest
  obtain ⟨hdefined, hvalue⟩ := value_literal m hx
  have hlast := Cursor.next_of_rest_eq_nil (hreads.within (Nat.zero_le _)) hend
  have hsource : c.source = Source.ofString (Number.text x) := hreads.ahead.source_eq
  rw [hsource, hchars] at hlast
  have hevaluate := evaluate_of_tree hreads hlast (fun _ _ => nofun) hdefined
  rw [hvalue] at hevaluate
  apply hevaluate

end Expression

end LineBasic
