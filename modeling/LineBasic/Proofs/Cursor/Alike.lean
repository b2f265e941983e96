import LineBasic.Proofs.Cursor.Advance
import LineBasic.Proofs.Line.Tokens
import LineBasic.Text.Space

/-!
# Cursors in texts of the same sense

Two sources that make the same sense may differ in their lengths, so that places in them do
not agree as numbers.  Places correspond when the sources make the same sense from there on.
Cursors at corresponding places read tokens that stand for the same, and are at corresponding
places again.
-/

namespace LineBasic

open Program

/-- The sources make the same sense. -/
def Source.SameSense (s s' : Source) : Prop :=
  Line.senses s.chars = Line.senses s'.chars

/-- The sources make the same sense from the offsets on. -/
def Source.Places (s s' : Source) (n n' : Nat) : Prop :=
  Line.senses (s.chars.drop n) = Line.senses (s'.chars.drop n')

/-- The tokens stand for the same. -/
def Token.SameSense (t t' : Token) : Prop :=
  t.sense = t'.sense

namespace Cursor

open Source (Places)

variable {s s' : Source}

/-- Cursors in two sources, at corresponding places and after tokens at corresponding
places. -/
structure Alike (s s' : Source) (c c' : Cursor) : Prop where
  source_left : c.source = s
  source_right : c'.source = s'
  pos : Places s s' c.pos c'.pos
  start : Places s s' c.start c'.start

namespace Alike

variable {c c' : Cursor} (h : Alike s s' c c')

include h

theorem senses_rest :
  Line.senses c.rest = Line.senses c'.rest
  := by
  rw [rest_eq, rest_eq, h.source_left, h.source_right]
  apply h.pos

theorem jump {n n' : Nat} (hn : Places s s' n n') :
  Alike s s' (c.jump n) (c'.jump n')
  where
  source_left := h.source_left
  source_right := h.source_right
  pos := hn
  start := hn

theorem pushBack :
  Alike s s' c.pushBack c'.pushBack
  := h.jump h.start

theorem skipLine :
  Alike s s' c.skipLine c'.skipLine
  := by
  have hrest := Line.senses_drop_length h.senses_rest
  apply h.jump
  simpa [Places, rest_eq, List.drop_drop, h.source_left, h.source_right] using hrest

theorem skipBlanks :
  Alike s s' c.skipBlanks c'.skipBlanks
  := by
  have hrest : Line.senses c.skipBlanks.rest = Line.senses c'.skipBlanks.rest := by
    rw [rest_skipBlanks, rest_skipBlanks, Line.senses_dropWhile, Line.senses_dropWhile]
    apply h.senses_rest
  apply h.jump
  rw [rest_eq, rest_eq] at hrest
  rw [Places, ← h.source_left, ← h.source_right]
  apply hrest

/-- Passing what stands for the same leads to corresponding places. -/
theorem pass {x x' : Token × Nat} (hx : Line.SameScan c.rest c'.rest x x') :
  Alike s s' (c.pass x.2) (c'.pass x'.2)
  where
  source_left := h.source_left
  source_right := h.source_right
  pos := by
    have hrest := hx.rest
    simpa [Places, Cursor.pass, rest_eq, List.drop_drop, h.source_left, h.source_right] using hrest
  start := by
    simpa [Cursor.start, Cursor.pass] using h.pos

end Alike

/-- Cursors at corresponding places read tokens that stand for the same. -/
theorem runAlike_next :
  RunAlike (Alike s s') Token.SameSense next next
  := by
  intro c c' h
  have hskip := h.skipBlanks
  have hscan := Line.sameScan_of_senses hskip.senses_rest (fun _ => isBlank_of_mem_head?)
    (fun _ => isBlank_of_mem_head?)
  rw [next, next]
  generalize hx : Token.scan? c.skipBlanks.rest = x at hscan
  generalize hx' : Token.scan? c'.skipBlanks.rest = x' at hscan
  cases hscan with
  | none => apply Matching.error hskip
  | some hsame =>
    have htoken : Token.SameSense _ _ := hsame.token
    apply Matching.ok htoken (hskip.pass hsame)

/-- Corresponding places are in lines with the same number. -/
theorem lineOf_of_places (hs : s.SameSense s') {c c' : Cursor} (h : Alike s s' c c')
    {n n' : Nat} (hn : Places s s' n n') :
  c.lineOf n = c'.lineOf n'
  := by
  rw [lineOf, lineOf, h.source_left, h.source_right, Line.breaks_of_senses hs hn]

end Cursor

end LineBasic
