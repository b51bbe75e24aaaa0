import DotMatrix.Memory.Map
import DotMatrix.Processor.Bus

/-!
# The board

A board is a memory map and the disk that its save file is on. It is the bus of the console's
processor.

`Board.attachRam` sets up the RAM of a cartridge; when it fails the memory map is as it was.
-/

namespace DotMatrix

/-- A memory map and a disk. -/
structure Board where
  map : MemoryMap := {}
  disk : Disk := {}
  deriving DecidableEq

namespace Board

instance : Bus Board where
  read b a := (b.map.read b.disk a, b)
  write b a v :=
    let (map, disk) := b.map.write b.disk a v
    ⟨map, disk⟩
  readNotes b a := b.map.readNotes b.disk a
  writeNotes b a v := b.map.writeNotes a v

/-- Set up cartridge RAM: in a save file when it is battery-backed and has banks, else in
memory. -/
def attachRam (b : Board) (banks : Nat) (battery : Bool) (path : Option String) :
    Except MemoryError Unit × Board :=
  if battery && banks != 0 then
    match path with
    | none => (.error .missingSavePath, b)
    | some p =>
      match CartridgeRam.openSave p banks b.disk with
      | (.ok ram, disk) => (.ok (), ⟨b.map.setRam ram, disk⟩)
      | (.error e, disk) => (.error e, ⟨b.map, disk⟩)
  else (.ok (), { b with map := b.map.setRam (.ofBanks banks) })

/-- The diagnostic of cartridge RAM that was set up for a controller. -/
def attachNote (b : Board) (banks : Nat) (controller : String) : Entry :=
  let kind := if b.map.ram.isPersistent then "persistent" else "volatile"
  ⟨.info, "external RAM: " ++ toString banks ++ " bank(s), " ++ kind ++ " (" ++ controller ++ ")"⟩

/-- Bring the save file up to date. -/
def flush (b : Board) : Except MemoryError Board := do
  return { b with disk := ← b.map.ram.flush b.disk }

end Board

end DotMatrix
