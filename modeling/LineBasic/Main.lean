import LineBasic.File
import LineBasic.Machine.Run

/-!
# The command line

Runs the program in a file: prints what it prints, and asks for lines where it asks for
input.  The status is 0 where the program has come to its end, 1 where it could not be read or
has ended in a fault, and 2 where the command line does not name one file.
-/

namespace LineBasic.Main

/-- The obstacle that an error of the system amounts to. -/
def obstacle : IO.Error → File.Obstacle
  | .noFileOrDirectory _ _ _ => .missing
  | e => .other (toString e)

/-- The bytes of the file at a path, or what stands in the way of them. -/
def contents (path : String) : IO (Except File.Obstacle ByteArray) := do
  try
    return .ok (← IO.FS.readBinFile path)
  catch e =>
    return .error (obstacle e)

/-- Shows a fault in bold type. -/
def report (f : Fault) : IO Unit :=
  IO.println ("\x1b[1m" ++ f.message ++ "\x1b[0m")

/-- Runs a machine to its end, and yields whether that was without a fault. -/
partial def loop (m : Machine) : IO Bool := do
  let (event, m) := m.execute 5000
  match event with
  | .stopped => return true
  | .running => loop m
  | .print s => do
    IO.print s
    loop m
  | .input prompt => do
    IO.print prompt
    (← IO.getStdout).flush
    let line ← (← IO.getStdin).getLine
    loop (if line.isEmpty then m.endOfInput else m.enter line)
  | .warning s => do
    IO.println s
    loop m
  | .fault f => do
    report f
    return false

end LineBasic.Main

open LineBasic in
/-- The command line: one argument, the name of a program file. -/
def main (args : List String) : IO UInt32 := do
  match args with
  | [path] =>
    match File.load (← Main.contents path) with
    | .ok text => return if ← Main.loop (Machine.ofString text) then 0 else 1
    | .error f => do
      Main.report f
      return 1
  | _ => do
    IO.eprintln "Usage: linebasic <filename>"
    return 2
