import LineBasic.Fault

/-!
# Program files

A program is kept in a file as UTF-8 text, with or without the mark that ends a file on some
systems, which is not part of the program.  What stands in the way of having the bytes of a
file is an obstacle; a missing file is a fault of its own, and every other obstacle counts as
a file that cannot be read.
-/

namespace LineBasic.File

/-- What stands in the way of having the bytes of a file. -/
inductive Obstacle where
  | missing
  | notAFolder
  | isAFolder
  | nulInPath
  | longName
  | outOfMemory
  | other (reason : String)
  deriving DecidableEq, Repr

namespace Obstacle

/-- The words of the system for an obstacle. -/
def text : Obstacle → String
  | missing => "No such file or directory (os error 2)"
  | notAFolder => "Not a directory (os error 20)"
  | isAFolder => "Is a directory (os error 21)"
  | nulInPath => "file name contained an unexpected NUL byte"
  | longName => "File name too long (os error 36)"
  | outOfMemory => "out of memory"
  | other reason => reason

/-- The fault that an obstacle amounts to. -/
def fault (o : Obstacle) : Fault :=
  Fault.of (if o = missing then .sourceNotFound else .sourceUnreadable) o.text

end Obstacle

/-- The text without the mark that ends a file, if that is its last character. -/
def withoutMark (cs : List Char) : List Char :=
  if cs.getLast? = some '\x1a' then cs.dropLast else cs

/-- The program that the bytes of a file hold. -/
def decode (bytes : ByteArray) : Except Fault String :=
  match String.fromUTF8? bytes with
  | some s => .ok (String.ofList (withoutMark s.toList))
  | none => .error (Fault.of .sourceUnreadable "stream did not contain valid UTF-8")

/-- The program that a file holds, given its bytes or what stands in the way of them. -/
def load (contents : Except Obstacle ByteArray) : Except Fault String :=
  match contents with
  | .ok bytes => decode bytes
  | .error o => .error o.fault

end LineBasic.File
