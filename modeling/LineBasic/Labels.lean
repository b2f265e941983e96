import LineBasic.Cursor
import Std.Data.TreeMap

/-!
# Labels

A line that starts with a number is labelled by it.  Labels are compared as texts, so that
`10` and `010` are two labels.  `Labels.build` looks at the first token of every line and
notes the offset that follows a label; it fails at the second line with the same label, and
at a line that starts with a quoted text that is not closed.
-/

namespace LineBasic

/-- The offsets that follow the labels of a program, by label. -/
structure Labels where
  offsets : Std.TreeMap String Nat := {}

namespace Labels

/-- The table without labels. -/
def empty : Labels :=
  {}

/-- The offset that follows a label. -/
def get? (t : Labels) (label : String) : Option Nat :=
  t.offsets[label]?

/-- The number of labels. -/
def size (t : Labels) : Nat :=
  t.offsets.size

/-- The labels in ascending order, each with the offset that follows it. -/
def toList (t : Labels) : List (String × Nat) :=
  t.offsets.toList

/-- The table with one more label. -/
def insert (t : Labels) (label : String) (offset : Nat) : Labels :=
  ⟨t.offsets.insert label offset⟩

/-- The table with the labels of up to `n` more lines added, where blank lines count too. -/
def scan : (n : Nat) → Labels → Reading Labels
  | 0, t, c => .ok t c
  | n + 1, t, c =>
    match Cursor.next c with
    | .error f c' => .error (f.inLine (c'.lineOf c'.pos)) c'
    | .ok .endOfProgram c' => .ok t c'
    | .ok .endOfLine c' => scan n t c'
    | .ok (.number label) c' =>
      if (t.get? label).isSome then
        .error ((Fault.of .duplicateLabel label).inLine (c'.lineOf c'.pos)) c'
      else
        scan n (t.insert label c'.pos) c'.skipLine
    | .ok _ c' => scan n t c'.skipLine

/-- The table of all labels of a source.  The place of the cursor does not matter, and it is
left at the start.  There is at most one line more than there are characters. -/
def build : Reading Labels := fun c =>
  match scan (c.source.size + 1) empty (c.jump 0) with
  | .ok t c' => .ok t (c'.jump 0)
  | .error f c' => .error f c'

/-- What the first token of a line adds to the table, and where the next line is looked for. -/
theorem scan_succ (n : Nat) (t : Labels) (c : Cursor) :
  scan (n + 1) t c =
    match Cursor.next c with
    | .error f c' => .error (f.inLine (c'.lineOf c'.pos)) c'
    | .ok .endOfProgram c' => .ok t c'
    | .ok .endOfLine c' => scan n t c'
    | .ok (.number label) c' =>
      if (t.get? label).isSome then
        .error ((Fault.of .duplicateLabel label).inLine (c'.lineOf c'.pos)) c'
      else
        scan n (t.insert label c'.pos) c'.skipLine
    | .ok _ c' => scan n t c'.skipLine
  := rfl

/-- A source has the labels that are noted in it from its start. -/
theorem build_eq_ok_iff {c c' : Cursor} {t : Labels} :
  build c = .ok t c' ↔
    ∃ c₁, scan (c.source.size + 1) empty (c.jump 0) = .ok t c₁ ∧ c₁.jump 0 = c'
  := by
  rw [build]
  cases scan (c.source.size + 1) empty (c.jump 0) with
  | ok t' c₁ =>
    constructor
    · rintro ⟨⟩
      exact ⟨c₁, rfl, rfl⟩
    · rintro ⟨_, ⟨⟩, rfl⟩
      rfl
  | error f c₁ => simp only [reduceCtorEq, false_and, exists_false]

/-- The labels of a source are at fault where noting them from its start fails. -/
theorem build_eq_error_iff {c c' : Cursor} {f : Fault} :
  build c = .error f c' ↔ scan (c.source.size + 1) empty (c.jump 0) = .error f c'
  := by
  rw [build]
  cases scan (c.source.size + 1) empty (c.jump 0) with
  | ok t c₁ => simp only [reduceCtorEq]
  | error f' c₁ => rfl

/-- No label is in the empty table. -/
theorem get?_empty (label : String) :
  empty.get? label = none
  := Std.TreeMap.getElem?_emptyc

/-- Only the label that is added is looked up differently. -/
theorem get?_insert (t : Labels) (label label' : String) (offset : Nat) :
  (t.insert label offset).get? label' = if label = label' then some offset else t.get? label'
  := by
  rw [get?, insert, Std.TreeMap.getElem?_insert]
  simp only [Std.LawfulEqCmp.compare_eq_iff_eq, get?]

end Labels

end LineBasic
