import PullFlow.Request
import PullFlow.Text.Delimited

/-!
The host of a rehearsal, in memory: a tree of directories and files, lines of input, an output and a
clock. A path is a list of names with strokes between them, followed name by name from the working
directory or, behind a stroke, from the root; every name but the last must lead to a directory. A
stroke behind the last name asks for a directory too.
-/

namespace PullFlow.Rehearsal

/-- What a name stands for on the disk. -/
inductive DiskEntry where
  | file (bytes : ByteArray)
  | directory
  /-- A file that stays empty whatever is written to it. -/
  | void

/-- Why the host refuses. -/
inductive HostFault where
  | missing
  | notDirectory
  | isDirectory
  | notText
  | nullByte
  | nameTooLong
  deriving DecidableEq, Repr

def HostFault.message : HostFault → String
  | missing => "No such file or directory (os error 2)"
  | notDirectory => "Not a directory (os error 20)"
  | isDirectory => "Is a directory (os error 21)"
  | notText => "stream did not contain valid UTF-8"
  | nullByte => "file name contained an unexpected NUL byte"
  | nameTooLong => "File name too long (os error 36)"

/-- Where a way begins: at the working directory, some levels above it, or at the root. -/
inductive Base where
  | here
  | above (levels : Nat)
  | root

/-- A place in the tree: the names on the way to it from a base. -/
structure Spot where
  base : Base
  way : List String

namespace Spot

/-- The directory one level up; the root is above itself. -/
def parent : Spot → Spot
  | ⟨.here, []⟩ => ⟨.above 1, []⟩
  | ⟨.above levels, []⟩ => ⟨.above (levels + 1), []⟩
  | ⟨.root, []⟩ => ⟨.root, []⟩
  | ⟨base, way⟩ => ⟨base, way.dropLast⟩

def child (s : Spot) (name : String) : Spot := ⟨s.base, s.way ++ [name]⟩

/-- The shortest path to a place. -/
def path (s : Spot) : String :=
  let start := match s.base with
    | .here => ""
    | .above levels => String.join (List.replicate levels "../")
    | .root => "/"
  start ++ Text.join "/" s.way

end Spot

/-- The directories that every host has at its root. -/
def commonDirectories : List String :=
  ["bin", "dev", "etc", "home", "lib", "proc", "root", "run", "sys", "tmp", "usr", "var"]

/-- What every host holds. -/
def common? (s : Spot) : Option DiskEntry :=
  match s with
  | ⟨_, []⟩ => some .directory
  | ⟨.root, [name]⟩ => if commonDirectories.contains name then some .directory else none
  | ⟨.root, ["dev", "null"]⟩ => some .void
  | _ => none

/-- The entries of a disk that not every host has, by their shortest paths. -/
structure Disk where
  entries : List (String × DiskEntry)

/-- The length in bytes from which a name is too long. -/
def nameLimit : Nat := 256

/-- The length in bytes from which a path is too long. -/
def pathLimit : Nat := 4096

/-- Where a path leads: to a directory on its own way, or to a name that is still to be looked up,
with or without a stroke behind it. -/
inductive Destination where
  | directory
  | named (directory : Spot) (name : String) (stroke : Bool)

namespace Disk

def entry? (d : Disk) (s : Spot) : Option DiskEntry :=
  match Fields.get? s.path d.entries with
  | some e => some e
  | none => common? s

/-- The entry of a name in a directory. -/
def look (d : Disk) (s : Spot) (name : String) : Except HostFault (Option DiskEntry) :=
  if nameLimit ≤ name.utf8ByteSize then .error .nameTooLong else .ok (d.entry? (s.child name))

/-- The directory that a name leads to. -/
def enter (d : Disk) (s : Spot) (name : String) : Except HostFault Spot :=
  if name = "." then .ok s
  else if name = ".." then .ok s.parent
  else do
    match ← d.look s name with
    | some .directory => return s.child name
    | some _ => throw .notDirectory
    | none => throw .missing

/-- Follows a path up to its last name. -/
def locate (d : Disk) (path : String) : Except HostFault Destination := do
  if path.toList.contains '\x00' then throw .nullByte
  if path = "" then throw .missing
  if pathLimit ≤ path.utf8ByteSize then throw .nameTooLong
  let names := (Text.split "/" path).filter (· != "")
  let start : Spot := ⟨if path.toList.head? = some '/' then .root else .here, []⟩
  match names.getLast? with
  | none => return .directory
  | some last =>
      let s ← names.dropLast.foldlM d.enter start
      if last = "." ∨ last = ".." then return .directory
      return .named s last (path.toList.getLast? = some '/')

/-- The content of a file. -/
def read (d : Disk) (path : String) : Except HostFault ByteArray := do
  match ← d.locate path with
  | .directory => throw .isDirectory
  | .named s name stroke =>
      let ofFile (bytes : ByteArray) : Except HostFault ByteArray :=
        if stroke then .error .notDirectory else .ok bytes
      match ← d.look s name with
      | some (.file bytes) => ofFile bytes
      | some .void => ofFile .empty
      | some .directory => throw .isDirectory
      | none => throw .missing

/-- The content of a file as text. -/
def readText (d : Disk) (path : String) : Except HostFault String := do
  match String.fromUTF8? (← d.read path) with
  | some s => return s
  | none => throw .notText

/-- Puts an entry at a place. -/
def put (d : Disk) (s : Spot) (e : DiskEntry) : Disk := ⟨Fields.put s.path e d.entries⟩

/-- Writes text to a file, in place of its content or behind it. A file is made where there is
none, but never behind a stroke. -/
def write (d : Disk) (path text : String) (append : Bool) : Except HostFault Disk := do
  match ← d.locate path with
  | .directory => throw .isDirectory
  | .named _ _ true => throw .isDirectory
  | .named s name false =>
      match ← d.look s name with
      | some .directory => throw .isDirectory
      | some .void => return d
      | some (.file bytes) =>
          return d.put (s.child name) (.file (if append then bytes ++ text.toUTF8 else text.toUTF8))
      | none => return d.put (s.child name) (.file text.toUTF8)

end Disk

/-- Everything outside the flows: the disk, the lines of input left, what was printed, and the
moment at which the clock was zero. -/
structure Host where
  disk : Disk
  lines : List String
  printed : String
  origin : Nat

namespace Host

/-- A host with a disk and some input, on the afternoon of a recent day. -/
def make (disk : Disk) (input : String) : Host := ⟨disk, Text.lines input, "", 1735745858000000000⟩

/-- Serves a request at a moment of the clock. -/
def serve (h : Host) (clock : Nat) : HostRequest → Host × Outcome
  | .readLine =>
      match h.lines with
      | [] => (h, .ok .null)
      | line :: lines => ({ h with lines := lines }, .ok (.text line))
  | .readFile path binary =>
      let content : Except HostFault Value :=
        if binary then
          (h.disk.read path).map fun bytes => .list (bytes.toList.map fun b => .int b.toNat)
        else (h.disk.readText path).map .text
      (h, content.mapError fun f => .host f.message)
  | .writeFile path text append =>
      match h.disk.write path text append with
      | .ok disk => ({ h with disk := disk }, .ok .null)
      | .error f => (h, .error (.host f.message))
  | .print text => ({ h with printed := h.printed ++ text }, .ok .null)
  | .moment => (h, .ok (.int (h.origin + clock)))

end Host
end PullFlow.Rehearsal
