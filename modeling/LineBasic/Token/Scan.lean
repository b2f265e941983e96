import LineBasic.Line
import LineBasic.Token

/-!
# Scanning tokens

`Token.scan?` reads the token at the head of a text that starts with no blank, together
with the number of its characters.  It takes as many characters as can belong to the token:
words and numbers run up to the next blank, line end or delimiter, whatever the characters
between, and quoted texts up to the next quote of their line.  A quoted text that is not
closed is no token.  A character with which no token starts ends the program, as the end of
the text does, and is not consumed.
-/

namespace LineBasic.Token

/-- A character that no word and no number runs across. -/
def isBreak (c : Char) : Bool :=
  isBlank c || Line.isEnd c || (Delimiter.ofChar? c).isSome

/-- The word or number at the head of a text. -/
def unbroken (cs : List Char) : List Char :=
  cs.takeWhile fun c => !isBreak c

/-- A word as a token. -/
def ofWord (cs : List Char) : Token :=
  match Keyword.ofText? (String.ofList cs) with
  | some k => keyword k
  | none => name (String.ofList cs)

/-- A character that a quoted text runs across. -/
def isQuotable (c : Char) : Bool :=
  c ≠ '"' && !Line.isEnd c

/-- The text up to the next quote, if that is on the same line. -/
def closed? (cs : List Char) : Option (List Char) :=
  match cs.dropWhile isQuotable with
  | '"' :: _ => some (cs.takeWhile isQuotable)
  | _ => none

/-- The token at the head of a text that starts with no blank, with its length, unless it is
a quoted text that is not closed. -/
def scan? : List Char → Option (Token × Nat)
  | [] => some (endOfProgram, 0)
  | c :: cs =>
    if Line.isEnd c then
      some (endOfLine, Line.terminator (c :: cs))
    else if let some d := Delimiter.longest? (c :: cs) then
      some (delimiter d, d.text.length)
    else if c.isAlpha then
      let word := unbroken (c :: cs)
      some (ofWord word, word.length)
    else if c.isDigit then
      let word := unbroken (c :: cs)
      some (number (String.ofList word), word.length)
    else if c = '"' then
      (closed? cs).map fun s => (quoted (String.ofList s), s.length + 2)
    else
      some (endOfProgram, 0)

end LineBasic.Token
