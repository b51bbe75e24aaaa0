import DotMatrix.Disk.Basic
import DotMatrix.Text.Hex

/-!
# Memory errors

What can go wrong with cartridge memory. Setting up a save file can fail for good; all other errors
arise while a program runs, and are noted and answered by an open bus or a dropped write.
-/

namespace DotMatrix

/-- What can go wrong with cartridge memory. -/
inductive MemoryError
  /-- A battery-backed RAM without a path to save it at. -/
  | missingSavePath
  | saveOpen (path : String) (cause : DiskError)
  | saveResize (path : String) (size : Nat) (cause : DiskError)
  | saveAccess (position : Nat) (cause : DiskError)
  /-- A bank number that is not below the number of banks. -/
  | noSuchBank (region : String) (index count : Nat)
  deriving DecidableEq, Repr

namespace MemoryError

/-- The wording of a memory error. -/
def message : MemoryError → String
  | missingSavePath => "persistent external RAM requested without a save file path"
  | saveOpen path _ => "failed to open save file '" ++ path ++ "'"
  | saveResize path size _ =>
    "failed to size save file '" ++ path ++ "' to " ++ toString size ++ " bytes"
  | saveAccess position _ => "save file access at offset " ++ Hex.nat0x position ++ " failed"
  | noSuchBank region index count =>
    region ++ " bank " ++ toString index ++ " is out of range (" ++ toString count ++
      " banks present)"

/-- The disk error behind a memory error. -/
def cause? : MemoryError → Option DiskError
  | saveOpen _ c | saveResize _ _ c | saveAccess _ c => some c
  | missingSavePath | noSuchBank .. => none

end MemoryError

end DotMatrix
