import LineBasic.File

/-!
# Folders

A tree of folders and files, in which paths are looked up name by name.  The parts of a path
are separated by slashes, a single dot stands for the folder itself, and two dots for the one
that holds it; the top of the tree holds itself.  A path that starts with a slash starts at the
top, and every other path starts at the place from which it is looked up.

`Place.standard` is an empty folder in a system of the usual layout, for hosts that give no
access to files of their own.
-/

namespace LineBasic.File

/-- A file with its bytes, one whose bytes cannot be had, or a folder with the names of what
is in it. -/
inductive Tree where
  | file (bytes : ByteArray)
  | closed (reason : Obstacle)
  | folder (entries : List (String × Tree))

/-- What is at a place in a tree, and the folders around it, the nearest first. -/
structure Place where
  here : Tree
  around : List Tree := []

/-- What has a name in a folder. -/
def Tree.find? (name : String) : List (String × Tree) → Option Tree
  | [] => none
  | (n, t) :: entries => if n = name then some t else find? name entries

namespace Place

/-- The top of the tree that a place is in. -/
def top (p : Place) : Place :=
  { here := p.around.getLastD p.here }

/-- The folder that holds a place. -/
def outer (p : Place) : Place :=
  match p.around with
  | [] => p
  | t :: around => ⟨t, around⟩

/-- The place that one part of a path leads to. -/
def enter (p : Place) (name : String) : Except Obstacle Place :=
  match p.here with
  | .folder entries =>
    if name = "" ∨ name = "." then
      .ok p
    else if name = ".." then
      .ok p.outer
    else if 255 < name.utf8ByteSize then
      .error .longName
    else
      match Tree.find? name entries with
      | some t => .ok ⟨t, p.here :: p.around⟩
      | none => .error .missing
  | _ => .error .notAFolder

/-- The bytes of the file at a place. -/
def bytes (p : Place) : Except Obstacle ByteArray :=
  match p.here with
  | .file bytes => .ok bytes
  | .closed reason => .error reason
  | .folder _ => .error .isAFolder

/-- The bytes of the file that a path leads to. -/
def contents (p : Place) (path : String) : Except Obstacle ByteArray := do
  if path.toList.contains '\x00' then
    throw .nulInPath
  else if path.isEmpty then
    throw .missing
  else if 4095 < path.utf8ByteSize then
    throw .longName
  else
    let start := if path.toList.head? = some '/' then p.top else p
    (← (path.splitOn "/").foldlM enter start).bytes

end Place

/-! ### The usual layout -/

namespace Tree

/-- A folder of which nothing further is known. -/
def empty : Tree :=
  folder []

/-- A device that gives bytes without end. -/
def endless : Tree :=
  closed .outOfMemory

/-- A file that is kept from readers. -/
def guarded : Tree :=
  closed (.other "Permission denied (os error 13)")

/-- A program of the machine, which is no text. -/
def machineCode : Tree :=
  file ⟨#[0x7f, 0x45, 0x4c, 0x46, 0xff]⟩

/-- The devices. -/
def devices : Tree :=
  folder
    [("null", file .empty), ("zero", endless), ("full", endless), ("random", endless),
      ("urandom", endless), ("tty", closed (.other "No such device or address (os error 6)")),
      ("pts", empty), ("shm", empty)]

/-- The folders of the usual layout, with the files that have the same place everywhere. -/
def usual : Tree :=
  let programs := folder [("cat", machineCode), ("ls", machineCode), ("sh", machineCode)]
  folder
    [("bin", programs), ("boot", empty), ("dev", devices),
      ("etc", folder [("group", guarded), ("hosts", guarded), ("passwd", guarded)]),
      ("home", empty), ("lib", empty), ("lib64", empty), ("media", empty), ("mnt", empty),
      ("opt", empty), ("proc", folder [("self", empty), ("sys", empty)]), ("root", empty),
      ("run", empty), ("sbin", empty), ("srv", empty), ("sys", empty), ("tmp", empty),
      ("usr", folder
        [("bin", programs), ("games", empty), ("include", empty), ("lib", empty),
          ("local", folder [("bin", empty), ("lib", empty), ("share", empty)]),
          ("sbin", empty), ("share", empty), ("src", empty)]),
      ("var", folder
        [("cache", empty), ("lib", empty), ("log", empty), ("spool", empty), ("tmp", empty)])]

end Tree

/-- An empty folder in a folder of its own, in a system of the usual layout. -/
def Place.standard : Place :=
  ⟨.empty, [.empty, .usual]⟩

end LineBasic.File
