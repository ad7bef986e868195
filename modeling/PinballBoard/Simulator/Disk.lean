import PinballBoard.Program.DiskFault
import PinballBoard.Text.Split

/-!
# Simulated disks

A path is followed name by name. A name is looked up only in a folder, so `lamps/x` fails in one way
where `lamps` is a file and in another where there is no `lamps`. An empty name, which a slash at
the end or two slashes in a row leave, stands for the folder itself, as does a dot; two dots stand
for the folder around it.

Only the places that matter are listed. A place in front of a listed one is a folder, and so is the
root.
-/

namespace PinballBoard

/-- What stands at a place of a disk. -/
inductive DiskEntry where
  | folder
  | file (text : String)
  /-- A device that has nothing to read and is no terminal. -/
  | device
  /-- The terminal of a program that has none. -/
  | noTerminal
deriving DecidableEq, Repr

/-- A disk, and the folder at which paths begin that have no slash in front. Places are lists of
names, from the root on. -/
structure Disk where
  workplace : List String
  entries : List (List String × DiskEntry)
deriving DecidableEq, Repr

namespace Disk

/-- The bytes that a name may have. -/
def nameLimit : Nat := 255

/-- The bytes that a path may have. -/
def pathLimit : Nat := 4095

/-- What stands at a place. -/
def entry? (d : Disk) (place : List String) : Option DiskEntry :=
  if place = [] then some .folder
  else
    (d.entries.lookup place).or
      (if d.entries.any fun e ↦ place.isPrefixOf e.1 then some .folder else none)

/-- Go from a place to another one by a name. -/
def follow (d : Disk) (place : List String) (name : String) : Except DiskFault (List String) :=
  match d.entry? place with
  | some .folder =>
    if name = "" ∨ name = "." then .ok place
    else if name = ".." then .ok place.dropLast
    else if nameLimit < name.utf8ByteSize then .error .nameTooLong
    else if (d.entry? (place ++ [name])).isSome then .ok (place ++ [name])
    else .error .missing
  | some _ => .error .notFolder
  | none => .error .missing

/-- What a path leads to. -/
def find (d : Disk) (path : String) : Except DiskFault DiskEntry :=
  if path = "" then .error .missing
  else if pathLimit < path.utf8ByteSize then .error .nameTooLong
  else do
    let start := if path.toList.head? = some '/' then [] else d.workplace
    let place ← (Text.parts '/' path).foldlM d.follow start
    match d.entry? place with
    | some .noTerminal => .error .noDevice
    | some entry => .ok entry
    | none => .error .missing

/-- The text of the file to which a path leads. -/
def read (d : Disk) (path : String) : Except DiskFault String :=
  (d.find path).bind fun
    | .file text => .ok text
    | .folder => .error .isFolder
    | .device | .noTerminal => .ok ""

/-- Why no serial port can be opened at a path: the disk has none. -/
def serialFault (d : Disk) (path : String) : DiskFault :=
  match d.find path with
  | .ok .folder => .isFolder
  | .ok _ => .notTerminal
  | .error fault => fault

/-- The devices of every disk that are no terminals. -/
def devices : List String :=
  ["full", "null", "random", "stderr", "stdin", "stdout", "urandom", "zero"]

/-- The folders of every disk. -/
def folders : List String :=
  ["bin", "boot", "dev", "etc", "home", "lib", "media", "mnt", "opt", "proc", "root", "run", "sbin",
    "srv", "sys", "tmp", "usr", "var"]

/-- A disk with some files in an otherwise empty workplace. -/
def ofFiles (files : List (String × String)) : Disk :=
  let workplace := ["tmp", "work"]
  { workplace
    entries := files.map (fun (name, text) ↦ (workplace ++ Text.parts '/' name, .file text))
      ++ [(workplace, .folder), (["dev", "tty"], .noTerminal)]
      ++ devices.map (fun name ↦ (["dev", name], .device))
      ++ folders.map (fun name ↦ ([name], .folder)) }

end Disk

end PinballBoard
