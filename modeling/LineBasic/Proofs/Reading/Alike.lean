import LineBasic.Proofs.Expression.Alike
import LineBasic.Proofs.Reading.Limit
import LineBasic.Statement

/-!
# Reading in texts of the same sense

Everything that statements read is read alike in two sources that make the same sense: it
comes to the same value or to the same fault, and leaves the cursors at corresponding places.
Where a limit depends on the length of a source, one that suits both sources is used.
-/

namespace LineBasic

open Program
open Source (Places)

variable {s s' : Source}

/-! ### Parts of statements -/

/-- Tables of the same labels, which are followed by corresponding places. -/
def Labels.Alike (s s' : Source) (t t' : Labels) : Prop :=
  ∀ label, Option.Rel (Places s s') (t.get? label) (t'.get? label)

namespace Reading

open Cursor (runAlike_next)

variable {m : Memory}

theorem runAlike_pushBack :
  RunAlike (Cursor.Alike s s') Eq pushBack pushBack
  := by
  apply runAlike_modify
  intro c c' h
  apply h.pushBack

theorem runAlike_evaluateWithin (n : Nat) :
  RunAlike (Cursor.Alike s s') Eq (evaluateWithin m n) (evaluateWithin m n)
  := by
  apply runAlike_next.bind
  intro t t' ht
  apply runAlike_ite (by rw [ht.isEnd_eq])
  · apply runAlike_fail
  · apply (Rule.runsAlike_comparisons n ht).bind
    intro a a' ha
    apply runAlike_pure ha.value_eq

/-- Expressions have the same value; a limit that suits both sources is used for this. -/
theorem runAlike_evaluate :
  RunAlike (Cursor.Alike s s') Eq (evaluate m) (evaluate m)
  := by
  intro c c' h
  have hn : c.remaining < c.remaining + c'.remaining + 1 := by omega
  have hn' : c'.remaining < c.remaining + c'.remaining + 1 := by omega
  rw [evaluate_eq_evaluateWithin hn, evaluate_eq_evaluateWithin hn']
  apply runAlike_evaluateWithin _ h

theorem runAlike_expression :
  RunAlike (Cursor.Alike s s') Eq (expression m) (expression m)
  := by
  apply runAlike_evaluate.bind
  intro x x' hx
  apply runAlike_pushBack.bind
  intro _ _ _
  apply runAlike_pure hx

theorem runAlike_slotOf {t t' : Token} (ht : t.SameSense t') :
  RunAlike (Cursor.Alike s s') Eq (slotOf t) (slotOf t')
  := by
  rcases ht.eq_or_names with rfl | ⟨u, u', rfl, rfl⟩
  · cases t with
    | name u => apply runAlike_ofExcept
    | delimiter | number | keyword | quoted | endOfLine | endOfProgram => apply runAlike_fail
  · rw [slotOf, slotOf, Slot.ofName, Slot.ofName, Slot.ofName?_of_sense ht]
    apply runAlike_ofExcept

/-- A token that has to follow and is no name follows in both sources or in none. -/
theorem runAlike_expect {t : Token} (ht : ∀ u, t ≠ .name u) (kind : Fault.Kind) :
  RunAlike (Cursor.Alike s s') Eq (expect t kind) (expect t kind)
  := by
  apply runAlike_next.bind
  intro u u' hu
  apply runAlike_ite (hu.eq_iff ht)
  · apply runAlike_pure rfl
  · apply runAlike_fail

theorem runAlike_assignment :
  RunAlike (Cursor.Alike s s') Eq (assignment m) (assignment m)
  := by
  apply runAlike_next.bind
  intro t t' ht
  apply (runAlike_slotOf ht).bind
  rintro i _ rfl
  apply (runAlike_expect (fun _ => Token.noConfusion) _).bind
  intro _ _ _
  apply runAlike_expression.bind
  rintro x _ rfl
  apply runAlike_pure rfl

theorem runAlike_target :
  RunAlike (Cursor.Alike s s') Eq (target m) (target m)
  := by
  apply (runAlike_expect (fun _ => Token.noConfusion) _).bind
  intro _ _ _
  apply runAlike_expression

/-- A label leads to corresponding places, or is missing in both tables. -/
theorem runAlike_destination {t t' : Labels} (ht : Labels.Alike s s' t t') :
  RunAlike (Cursor.Alike s s') (Places s s') (destination t) (destination t')
  := by
  apply runAlike_next.bind
  intro u u' hu
  rcases hu.eq_or_names with rfl | ⟨v, v', rfl, rfl⟩
  · cases u with
    | number label =>
      have hlabel := ht label
      simp only
      generalize t.get? label = x at hlabel
      generalize t'.get? label = x' at hlabel
      cases hlabel with
      | none => apply runAlike_fail
      | some hplace => apply runAlike_pure hplace
    | delimiter | name | keyword | quoted | endOfLine | endOfProgram => apply runAlike_fail
  · apply runAlike_fail

theorem runAlike_condition :
  RunAlike (Cursor.Alike s s') Eq (condition m) (condition m)
  := by
  apply runAlike_expression.bind
  rintro x _ rfl
  apply runAlike_ite Iff.rfl
  · apply runAlike_modify
    intro c c' h
    apply h.skipLine
  · apply runAlike_expect fun _ => Token.noConfusion

theorem runAlike_loopName :
  RunAlike (Cursor.Alike s s') Eq loopName loopName
  := by
  apply runAlike_next.bind
  intro t t' ht
  rcases ht.eq_or_names with rfl | ⟨v, v', rfl, rfl⟩
  · cases t with
    | name v => apply runAlike_pure rfl
    | delimiter | number | keyword | quoted | endOfLine | endOfProgram =>
      apply runAlike_pushBack
  · apply runAlike_pure rfl

theorem runAlike_request :
  RunAlike (Cursor.Alike s s') Eq request request
  := by
  apply runAlike_next.bind
  intro t t' ht
  rcases ht.eq_or_names with rfl | ⟨v, v', rfl, rfl⟩
  · cases t with
    | quoted prompt =>
      apply (runAlike_expect (fun _ => Token.noConfusion) _).bind
      intro _ _ _
      apply runAlike_next.bind
      intro u u' hu
      apply (runAlike_slotOf hu).bind
      rintro i _ rfl
      apply runAlike_pure rfl
    | delimiter | name | number | keyword | endOfLine | endOfProgram =>
      apply (runAlike_slotOf ht).bind
      rintro i _ rfl
      apply runAlike_pure rfl
  · apply (runAlike_slotOf ht).bind
    rintro i _ rfl
    apply runAlike_pure rfl

/-- An item that is no quoted text is an expression. -/
theorem runAlike_value :
  RunAlike (Cursor.Alike s s') Eq (do pushBack; return Number.text (← expression m))
    (do pushBack; return Number.text (← expression m))
  := by
  apply runAlike_pushBack.bind
  intro _ _ _
  apply runAlike_expression.bind
  rintro x _ rfl
  apply runAlike_pure rfl

theorem runAlike_item {t t' : Token} (ht : t.SameSense t') :
  RunAlike (Cursor.Alike s s') Eq (item m t) (item m t')
  := by
  rcases ht.eq_or_names with rfl | ⟨v, v', rfl, rfl⟩
  · cases t with
    | quoted v => apply runAlike_pure rfl
    | delimiter | name | number | keyword | endOfLine | endOfProgram => apply runAlike_value
  · apply runAlike_value

theorem runAlike_items (n : Nat) (line : String) (separated : Bool) :
  RunAlike (Cursor.Alike s s') Eq (items m n line separated) (items m n line separated)
  := by
  induction n generalizing line separated with
  | zero => apply runAlike_fail
  | succ n ih =>
    apply runAlike_next.bind
    intro t t' ht
    apply runAlike_ite (by rw [ht.isEnd_eq])
    · apply runAlike_pure rfl
    · apply (runAlike_item ht).bind
      rintro v _ rfl
      apply runAlike_next.bind
      intro u u' hu
      rcases hu.eq_or_names with rfl | ⟨w, w', rfl, rfl⟩
      · split
        · apply ih
        · apply ih
        · apply runAlike_pure rfl
        · apply runAlike_pure rfl
        · apply runAlike_fail
      · apply runAlike_fail

theorem runAlike_printed :
  RunAlike (Cursor.Alike s s') Eq (printed m) (printed m)
  := by
  intro c c' h
  have hn : c.remaining < c.remaining + c'.remaining + 1 := by omega
  have hn' : c'.remaining < c.remaining + c'.remaining + 1 := by omega
  rw [printed_eq_items hn, printed_eq_items hn']
  apply runAlike_items _ _ _ h

end Reading

/-! ### Labels -/

namespace Labels

open Cursor (runAlike_next)

theorem alike_empty :
  Alike s s' empty empty
  := by
  intro label
  rw [get?_empty]
  apply Option.Rel.none

theorem Alike.insert {t t' : Labels} (h : Alike s s' t t') (label : String) {n n' : Nat}
    (hn : Places s s' n n') :
  Alike s s' (t.insert label n) (t'.insert label n')
  := by
  intro label'
  rw [get?_insert, get?_insert]
  split
  · apply Option.Rel.some hn
  · apply h label'

/-- Two tables of the same labels have a label or lack it. -/
theorem Alike.isSome_eq {t t' : Labels} (h : Alike s s' t t') (label : String) :
  (t.get? label).isSome = (t'.get? label).isSome
  := by
  have hlabel := h label
  generalize t.get? label = x at hlabel
  generalize t'.get? label = x' at hlabel
  cases hlabel with
  | none => rfl
  | some => rfl

/-- A fault at corresponding places names the same line. -/
theorem matching_error (hs : s.SameSense s') (f : Fault) {c c' : Cursor}
    (h : Cursor.Alike s s' c c') :
  Matching (Cursor.Alike s s') (Alike s s') (.error (f.inLine (c.lineOf c.pos)) c)
    (.error (f.inLine (c'.lineOf c'.pos)) c')
  := by
  rw [Cursor.lineOf_of_places hs h h.pos]
  apply Matching.error h

theorem runAlike_scan (hs : s.SameSense s') (n : Nat) :
  ∀ t t', Alike s s' t t' → RunAlike (Cursor.Alike s s') (Alike s s') (scan n t) (scan n t')
  := by
  induction n with
  | zero =>
    intro t t' ht c c' h
    apply Matching.ok ht h
  | succ n ih =>
    intro t t' ht c c' h
    have hnext := runAlike_next h
    rw [scan_succ, scan_succ]
    generalize Cursor.next c = x at hnext
    generalize Cursor.next c' = x' at hnext
    cases hnext with
    | error h₁ => apply matching_error hs _ h₁
    | @ok u u' c₁ c₁' hu h₁ =>
      rcases hu.eq_or_names with rfl | ⟨v, v', rfl, rfl⟩
      · cases u with
        | endOfProgram => apply Matching.ok ht h₁
        | endOfLine => apply ih t t' ht h₁
        | number label =>
          have hlabel := ht.isSome_eq label
          cases hsome : (t.get? label).isSome with
          | true =>
            rw [hsome] at hlabel
            simp only [hsome, ← hlabel, if_true]
            apply matching_error hs _ h₁
          | false =>
            rw [hsome] at hlabel
            simp only [hsome, ← hlabel, Bool.false_eq_true, if_false]
            apply ih _ _ (ht.insert label h₁.pos) h₁.skipLine
        | delimiter | name | keyword | quoted => apply ih t t' ht h₁.skipLine
      · apply ih t t' ht h₁.skipLine

theorem runAlike_build (hs : s.SameSense s') :
  RunAlike (Cursor.Alike s s') (Alike s s') build build
  := by
  intro c c' h
  have hn : c.source.size < c.source.size + c'.source.size + 1 := by omega
  have hn' : c'.source.size < c.source.size + c'.source.size + 1 := by omega
  have hstart : Places s s' 0 0 := hs
  have hscan := runAlike_scan hs (c.source.size + c'.source.size + 1) empty empty alike_empty
    (h.jump hstart)
  rw [build_eq_buildWithin hn, build_eq_buildWithin hn', buildWithin, buildWithin]
  generalize scan _ empty (c.jump 0) = x at hscan ⊢
  generalize scan _ empty (c'.jump 0) = x' at hscan ⊢
  cases hscan with
  | ok ht h₁ => apply Matching.ok ht (h₁.jump hstart)
  | error h₁ => apply Matching.error h₁

/-- The labels in ascending order. -/
def keys (t : Labels) : List String :=
  t.offsets.keys

/-- Tables of the same labels list the same labels. -/
theorem Alike.keys_eq {t t' : Labels} (h : Alike s s' t t') :
  t.keys = t'.keys
  := by
  have hmem : ∀ label, label ∈ t.keys ↔ label ∈ t'.keys := by
    intro label
    rw [keys, keys, Std.TreeMap.mem_keys, Std.TreeMap.mem_keys, ← Std.TreeMap.isSome_getElem?_iff_mem,
      ← Std.TreeMap.isSome_getElem?_iff_mem]
    apply Eq.to_iff
    rw [← get?, ← get?, h.isSome_eq label]
  have hperm : t.keys.Perm t'.keys :=
    (List.perm_ext_iff_of_nodup Std.TreeMap.nodup_keys Std.TreeMap.nodup_keys).mpr hmem
  apply hperm.eq_of_pairwise _ Std.TreeMap.ordered_keys Std.TreeMap.ordered_keys
  intro a b _ _ hab hba
  rw [Std.OrientedCmp.gt_of_lt hab] at hba
  cases hba

end Labels

end LineBasic
