/-!
# Tokens

The words, marks and ends that a program is made of.  Keywords are known in any mixture of
upper and lower case; every other word is a name.  Numbers and names keep the text they were
written with, as a number is only given a value where one is asked for.
-/

namespace LineBasic

/-- The words with a meaning of their own. -/
inductive Keyword where
  | printWord
  | inputWord
  | ifWord
  | thenWord
  | forWord
  | nextWord
  | toWord
  | gotoWord
  | gosubWord
  | returnWord
  | endWord
  | repeatWord
  | untilWord
  deriving DecidableEq, Repr

namespace Keyword

/-- The spelling of a keyword in capitals. -/
def text : Keyword → String
  | printWord => "PRINT"
  | inputWord => "INPUT"
  | ifWord => "IF"
  | thenWord => "THEN"
  | forWord => "FOR"
  | nextWord => "NEXT"
  | toWord => "TO"
  | gotoWord => "GOTO"
  | gosubWord => "GOSUB"
  | returnWord => "RETURN"
  | endWord => "END"
  | repeatWord => "REPEAT"
  | untilWord => "UNTIL"

/-- All keywords. -/
def all : List Keyword :=
  [printWord, inputWord, ifWord, thenWord, forWord, nextWord, toWord, gotoWord, gosubWord,
    returnWord, endWord, repeatWord, untilWord]

/-- The keyword that a word spells, in whatever case its letters are. -/
def ofText? (word : String) : Option Keyword :=
  all.find? (·.text = word.toUpper)

/-- Every keyword is in the list of all. -/
theorem mem_all (k : Keyword) :
  k ∈ all
  := by
  cases k <;> decide

end Keyword

/-- The marks between words, which need no blanks around them. -/
inductive Delimiter where
  | comma
  | semicolon
  | plus
  | minus
  | divide
  | multiply
  | modulus
  | caret
  | equal
  | openParen
  | closeParen
  | less
  | lessEqual
  | greater
  | greaterEqual
  | notEqual
  deriving DecidableEq, Repr

namespace Delimiter

/-- The spelling of a delimiter. -/
def text : Delimiter → String
  | comma => ","
  | semicolon => ";"
  | plus => "+"
  | minus => "-"
  | divide => "/"
  | multiply => "*"
  | modulus => "%"
  | caret => "^"
  | equal => "="
  | openParen => "("
  | closeParen => ")"
  | less => "<"
  | lessEqual => "<="
  | greater => ">"
  | greaterEqual => ">="
  | notEqual => "<>"

/-- The delimiter that a character is, or would be if nothing followed it. -/
def ofChar? : Char → Option Delimiter
  | ',' => some comma
  | ';' => some semicolon
  | '+' => some plus
  | '-' => some minus
  | '/' => some divide
  | '*' => some multiply
  | '%' => some modulus
  | '^' => some caret
  | '=' => some equal
  | '(' => some openParen
  | ')' => some closeParen
  | '<' => some less
  | '>' => some greater
  | _ => none

/-- The longest delimiter at the head of a text. -/
def longest? : List Char → Option Delimiter
  | [] => none
  | '<' :: '>' :: _ => some notEqual
  | '<' :: '=' :: _ => some lessEqual
  | '>' :: '=' :: _ => some greaterEqual
  | c :: _ => ofChar? c

/-- The delimiters that compare two values. -/
def isRelational : Delimiter → Bool
  | equal | less | lessEqual | greater | greaterEqual | notEqual => true
  | _ => false

end Delimiter

/-- The parts of a program. -/
inductive Token where
  | delimiter (d : Delimiter)
  | name (text : String)
  | number (text : String)
  | keyword (k : Keyword)
  | quoted (text : String)
  | endOfLine
  | endOfProgram
  deriving DecidableEq, Repr

namespace Token

/-- The spelling of a token. -/
def text : Token → String
  | delimiter d => d.text
  | name s => s
  | number s => s
  | keyword k => k.text
  | quoted s => "\"" ++ s ++ "\""
  | endOfLine => "\n"
  | endOfProgram => ""

/-- The tokens that end a statement. -/
def isEnd : Token → Bool
  | endOfLine | endOfProgram => true
  | _ => false

end Token

end LineBasic
