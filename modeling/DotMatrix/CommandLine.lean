import DotMatrix.Console

/-!
# The command line

The program takes a ROM file and, optionally, a number of frames. It runs the ROM for that many
frames and leaves the save file up to date. `CommandLine.run` is the whole program as a function of
its arguments and the disk.
-/

namespace DotMatrix.CommandLine

/-- What the program leaves behind. -/
structure Outcome where
  exitCode : UInt8
  /-- The text on the error stream; nothing is written elsewhere. -/
  errors : String
  disk : Disk

/-- The usage line. -/
def usage : String := "Usage: moongb <rom.gb> [frames]"

/-- The number of frames when none is given. -/
def defaultFrames : Nat := 60

/-- The number that decimal digits write. -/
def ofDigits (ds : List Char) : Nat := ds.foldl (fun n c => 10 * n + (c.toNat - '0'.toNat)) 0

/-- A number of frames: one or more ASCII digits, with a plus sign before them or without, for a
number below 2^32. -/
def readFrames (arg : String) : Option Nat :=
  let ds :=
    match arg.toList with
    | '+' :: ds => ds
    | ds => ds
  if ds ≠ [] ∧ ds.all Char.isDigit ∧ ofDigits ds < UInt32.size then some (ofDigits ds) else none

/-- The error line of a ROM that cannot be loaded: the error and what is behind it. -/
def loadError (path : String) (e : CartridgeError) : String :=
  "Error: " ++ ": ".intercalate (("failed to load '" ++ path ++ "'") :: e.message :: e.causes) ++
    "\n"

/-- Run a ROM for some frames. -/
def play (path : String) (frames : Nat) (d : Disk) : Outcome :=
  match Console.start path {} d {} with
  | .error f => ⟨1, loadError path f.error, f.disk⟩
  | .ok s =>
    match s.runFrames frames with
    | .error e => ⟨101, "Error: " ++ e.message ++ "\n", d⟩
    | .ok s =>
      match s.flush with
      | .error e => ⟨1, "Error: failed to write save data: " ++ e.message ++ "\n", d⟩
      | .ok s => ⟨0, "", s.machine.bus.disk⟩

/-- Run the program. Arguments after the second do not matter. -/
def run (args : List String) (d : Disk) : Outcome :=
  match args with
  | [] => ⟨2, usage ++ "\n", d⟩
  | [path] => play path defaultFrames d
  | path :: arg :: _ =>
    match readFrames arg with
    | some frames => play path frames d
    | none => ⟨2, "Invalid frame count '" ++ arg ++ "'. " ++ usage ++ "\n", d⟩

end DotMatrix.CommandLine
