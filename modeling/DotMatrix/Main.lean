import DotMatrix.CommandLine

/-!
# The program

Reads what the command line needs from the file system, runs it, and stores the save file.
-/

namespace DotMatrix.Main

/-- The bytes of a file, if it can be read. -/
def fileBytes? (path : String) : IO (Option ByteArray) := do
  try
    return some (← IO.FS.readBinFile path)
  catch _ =>
    return none

/-- Whether a path leads to a directory, if it leads to anything. -/
def isDirectory? (path : String) : IO (Option Bool) := do
  try
    return some (← (← IO.FS.realPath path).isDir)
  catch _ =>
    return none

/-- Whether a directory can be opened. -/
def opensDirectory (path : String) : IO Bool := do
  try
    let _ ← (← IO.FS.realPath path).readDir
    return true
  catch _ =>
    return false

/-- Copy what a path leads to onto a disk. What cannot be opened is there all the same, and refuses
to be opened. -/
def copyPath (d : Disk) (path : String) : IO Disk := do
  match ← isDirectory? path with
  | none => return d
  | some true =>
    let d := d.makeDirectory path
    return if ← opensDirectory path then d else d.close path .permissionDenied
  | some false =>
    match ← fileBytes? path with
    | some b => return d.putFile path b
    | none => return (d.putFile path .empty).close path .permissionDenied

/-- Copy a path and the directories on the way to it. -/
def copyWithParents (d : Disk) (path : String) : IO Disk := do
  (Path.parents path ++ [path]).foldlM copyPath d

/-- Store a file if its bytes on the disk are not those it had before. -/
def store (before after : Disk) (path : String) : IO Unit := do
  match after.contents? path with
  | some b => if before.contents? path ≠ some b then IO.FS.writeBinFile path b
  | none => return

end DotMatrix.Main

open DotMatrix in
/-- Run the command line on the file system. -/
def main (args : List String) : IO UInt32 := do
  let paths :=
    match args with
    | [] => []
    | path :: _ => [path, Path.withExtension path Cartridge.saveExtension]
  let disk ← paths.foldlM Main.copyWithParents {}
  let outcome := CommandLine.run args disk
  for path in paths.drop 1 do
    Main.store disk outcome.disk path
  IO.eprint outcome.errors
  return outcome.exitCode.toUInt32
