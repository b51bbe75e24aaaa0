import DotMatrix.Bytes
import DotMatrix.Disk.Path

/-!
# The disk

A disk is a tree of directories and named files. A name leads to a handle, and the contents belong
to the handle: whoever holds a handle goes on reading and writing them when the name is removed, and
sees the new bytes when the file is replaced. A place may refuse to be opened; what is there can
then be found all the same.

* `Disk.resolve` follows a path from the working directory; every component but the last has to be
  a directory.
* `Disk.find` says what a path leads to, whether it can be opened or not.
* `Disk.openRead` and `Disk.openOrCreate` give handles, `Disk.read`, `Disk.byte`, `Disk.putByte` and
  `Disk.setLength` work on the contents of one.
* `Disk.putFile`, `Disk.makeDirectory`, `Disk.close`, `Disk.remove` and `Disk.contents?` work on
  names.
-/

namespace DotMatrix

/-- Why a disk refuses a request. -/
inductive DiskError
  | notFound
  | permissionDenied
  | notDirectory
  | isDirectory
  | nameTooLong
  /-- A path that holds the character NUL. -/
  | badName
  /-- A read past the end of a file. -/
  | endOfFile
  /-- A length that is not below 2^63. -/
  | lengthOutOfRange
  deriving DecidableEq, Repr

/-- The wording of a disk error. -/
def DiskError.message : DiskError → String
  | notFound => "No such file or directory (os error 2)"
  | permissionDenied => "Permission denied (os error 13)"
  | notDirectory => "Not a directory (os error 20)"
  | isDirectory => "Is a directory (os error 21)"
  | nameTooLong => "File name too long (os error 36)"
  | badName => "file name contained an unexpected NUL byte"
  | endOfFile => "failed to fill whole buffer"
  | lengthOutOfRange => "out of range integral type conversion attempted"

/-- A place in the tree: the names from it up to its origin, innermost first. The origin is the root
or a directory some levels above the working directory. -/
structure Location where
  /-- None for the root, else the number of levels above the working directory. -/
  origin : Option Nat := some 0
  names : List Name := []
  deriving DecidableEq, Repr

namespace Location

/-- The place of a name in a directory. -/
def child (l : Location) (n : Name) : Location := { l with names := n :: l.names }

/-- The directory above a place. -/
def parent (l : Location) : Location :=
  match l.names with
  | _ :: ns => { l with names := ns }
  | [] => { l with origin := l.origin.map (· + 1) }

/-- Follow one component. -/
def follow (l : Location) (n : Name) : Location := if n = ['.', '.'] then l.parent else l.child n

/-- Where a path starts. -/
def start (path : String) : Location := ⟨if Path.isAbsolute path then none else some 0, []⟩

end Location

/-- The contents that a file name leads to. -/
abbrev Handle := Nat

/-- What is found at a place. -/
inductive Node
  | directory
  | file (h : Handle)
  deriving DecidableEq, Repr

/-- A tree of directories and files. -/
structure Disk where
  directories : List Location := []
  files : List (Location × Handle) := []
  /-- The contents of each handle. -/
  contents : Array ByteArray := #[]
  /-- The places that refuse to be opened, and why. -/
  closed : List (Location × DiskError) := []
  deriving DecidableEq

namespace Disk

/-- The longest name in bytes. -/
def maxName : Nat := 255

/-- Whether a name has more bytes than a name may have. -/
def isTooLong (n : Name) : Bool := decide (maxName < (String.ofList n).utf8ByteSize)

/-- The length in bytes that a path stays below. -/
def pathLimit : Nat := 4096

/-- The length that a file stays below. -/
def lengthLimit : Nat := 0x8000000000000000

/-- What is found at a place. An origin is always a directory. -/
def node? (d : Disk) (l : Location) : Option Node :=
  if l.names = [] ∨ l ∈ d.directories then some .directory
  else (d.files.lookup l).map .file

/-- Why a place refuses to be opened, if it does. -/
def refusal? (d : Disk) (l : Location) : Option DiskError := d.closed.lookup l

/-! ### Paths -/

/-- Follow components from a directory; all but the last, and the last too if `whole`, have to be
directories. -/
def walk (d : Disk) (whole : Bool) : Location → List Name → Except DiskError Location
  | l, [] => .ok l
  | l, n :: ns =>
    let next := l.follow n
    if isTooLong n then .error .nameTooLong
    else if ns = [] ∧ !whole then .ok next
    else
      match d.node? next with
      | some .directory => walk d whole next ns
      | some (.file _) => .error .notDirectory
      | none => .error .notFound

/-- The place that a path leads to; its directory exists, the place itself may be empty. -/
def resolve (d : Disk) (path : String) : Except DiskError Location :=
  if path = "" then .error .notFound
  else if path.toList.contains '\x00' then .error .badName
  else if pathLimit ≤ path.utf8ByteSize then .error .nameTooLong
  else d.walk (Path.asksDirectory path) (Location.start path) (Path.components path)

/-- What a path leads to. -/
def find (d : Disk) (path : String) : Except DiskError Node := do
  let l ← d.resolve path
  match d.node? l with
  | some n => return n
  | none => throw .notFound

/-- Whether a path leads to something. -/
def exists? (d : Disk) (path : String) : Bool := (d.find path).isOk

/-! ### Handles -/

/-- Open what a path leads to for reading. A directory opens, but has no bytes to read. -/
def openRead (d : Disk) (path : String) : Except DiskError Node := do
  let l ← d.resolve path
  match d.node? l, d.refusal? l with
  | none, _ => throw .notFound
  | some _, some e => throw e
  | some n, none => return n

/-- Open a file for reading and writing, making an empty one when there is none. -/
def openOrCreate (d : Disk) (path : String) : Except DiskError (Handle × Disk) := do
  let l ← d.resolve path
  match d.node? l, d.refusal? l with
  | some .directory, _ => throw .isDirectory
  | _, some e => throw e
  | some (.file h), none => return (h, d)
  | none, none =>
    return (d.contents.size,
      { d with
        files := (l, d.contents.size) :: d.files
        contents := d.contents.push .empty })

/-- The bytes of a handle. -/
def bytes (d : Disk) (h : Handle) : ByteArray := d.contents.getD h .empty

/-- Exactly `n` bytes from position `i` on. -/
def read (d : Disk) (node : Node) (i n : Nat) : Except DiskError ByteArray :=
  match node with
  | .directory => .error .isDirectory
  | .file h =>
    let b := d.bytes h
    if i + n ≤ b.size then .ok (b.extract i (i + n)) else .error .endOfFile

/-- The byte at position `i`. -/
def byte (d : Disk) (h : Handle) (i : Nat) : Except DiskError UInt8 :=
  match Bytes.get? (d.bytes h) i with
  | some v => .ok v
  | none => .error .endOfFile

/-- Write a byte; a write past the end extends the file with zeros. -/
def putByte (d : Disk) (h : Handle) (i : Nat) (v : UInt8) : Disk :=
  { d with contents := d.contents.modify h (Bytes.put · i v) }

/-- Cut a file, or extend it with zeros. -/
def setLength (d : Disk) (h : Handle) (n : Nat) : Except DiskError Unit × Disk :=
  if n < lengthLimit then (.ok (), { d with contents := d.contents.modify h (Bytes.resize · n) })
  else (.error .lengthOutOfRange, d)

/-! ### Names -/

/-- Make the directories that components lead through, as far as they can be made: not past a file,
nor past a name that is too long. A directory is made even when the next component leaves it. -/
def makeDirectories (d : Disk) : Location → List Name → Disk
  | _, [] => d
  | l, n :: ns =>
    let next := l.follow n
    if isTooLong n then d
    else
      match d.node? next with
      | some .directory => makeDirectories d next ns
      | some (.file _) => d
      | none => makeDirectories { d with directories := next :: d.directories } next ns

/-- Make a directory and those on the way to it. -/
def makeDirectory (d : Disk) (path : String) : Disk :=
  d.makeDirectories (Location.start path) (Path.components path)

/-- Make a file, or replace the contents of the one that is there, making the directories on the way
to it. Where no file can be, nothing more happens. -/
def putFile (d : Disk) (path : String) (b : ByteArray) : Disk :=
  let d := d.makeDirectories (Location.start path) (Path.components path).dropLast
  match d.openOrCreate path with
  | .ok (h, d) => { d with contents := d.contents.modify h fun _ => b }
  | .error _ => d

/-- Let the place that a path leads to refuse to be opened. -/
def close (d : Disk) (path : String) (e : DiskError) : Disk :=
  match d.resolve path with
  | .ok l => { d with closed := (l, e) :: d.closed }
  | .error _ => d

/-- Remove a file name; handles to it stay good. -/
def remove (d : Disk) (path : String) : Disk :=
  match d.resolve path with
  | .ok l => { d with files := d.files.filter fun f => f.1 ≠ l }
  | .error _ => d

/-- The contents of the file that a path leads to, if it leads to a file. -/
def contents? (d : Disk) (path : String) : Option ByteArray :=
  match d.find path with
  | .ok (.file h) => some (d.bytes h)
  | _ => none

end Disk

end DotMatrix
