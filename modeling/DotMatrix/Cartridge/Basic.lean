import DotMatrix.Cartridge.Header
import DotMatrix.Memory.Board

/-!
# Cartridges

A cartridge is a ROM file with a header that was checked, and the path of its save file if it has a
battery.

* `Cartridge.ofFile` reads and checks the header; it changes nothing on the disk.
* `Cartridge.load` sets up the RAM of a cartridge and copies its ROM into the memory map. When the
  ROM cannot be read, the RAM is already that of the cartridge.
-/

namespace DotMatrix

/-- Why a cartridge cannot be used. -/
inductive CartridgeError
  | notFound (path : String)
  /-- A file name that does not end in `.gb` or `.gbc`. -/
  | badExtension (path : String)
  | openRom (path : String) (cause : DiskError)
  /-- A header that cannot be read. -/
  | unreadableHeader (cause : DiskError)
  /-- A header that says what it should not. -/
  | badHeader (e : HeaderError)
  /-- A fixed ROM bank that cannot be read. -/
  | fixedBank (cause : DiskError)
  /-- A switchable ROM bank that cannot be read. -/
  | switchBank (bank : Nat) (cause : DiskError)
  | saveFile (e : MemoryError)
  deriving DecidableEq, Repr

namespace CartridgeError

/-- The wording of a cartridge error. -/
def message : CartridgeError → String
  | notFound path => "ROM file '" ++ path ++ "' does not exist"
  | badExtension path => "'" ++ path ++ "' is not a .gb or .gbc file"
  | openRom path _ => "failed to open ROM file '" ++ path ++ "'"
  | unreadableHeader _ => "unable to read cartridge header"
  | badHeader e => e.message
  | fixedBank _ => "ROM is corrupt: unable to read the fixed bank"
  | switchBank bank _ => "ROM is corrupt: unable to read bank " ++ toString bank
  | saveFile _ => "unable to set up external RAM"

/-- The wordings of the errors behind a cartridge error, outermost first. -/
def causes : CartridgeError → List String
  | openRom _ c | unreadableHeader c | fixedBank c | switchBank _ c => [c.message]
  | saveFile e => e.message :: (e.cause?.map DiskError.message).toList
  | notFound _ | badExtension _ | badHeader _ => []

end CartridgeError

/-- A ROM file with a header that was checked. -/
structure Cartridge where
  romPath : String
  savePath : Option String
  header : Header
  deriving DecidableEq, Repr

namespace Cartridge

/-- The size of a ROM bank. -/
def romBankSize : Nat := 0x4000

/-- A file name ends in `.gb` or `.gbc`, in capitals or not. -/
def hasRomExtension (path : String) : Bool :=
  match Path.extension? path with
  | none => false
  | some ext =>
    let ext := ext.map Char.toLower
    ext = ['g', 'b'] || ext = ['g', 'b', 'c']

/-- The extension of a save file. -/
def saveExtension : Name := ['s', 'a', 'v']

/-- Read and check the header of the ROM file at a path. -/
def ofFile (d : Disk) (path : String) : Except CartridgeError Cartridge := do
  if !d.exists? path then throw (.notFound path)
  if !hasRomExtension path then throw (.badExtension path)
  let file ← (d.openRead path).mapError (.openRom path)
  let raw ← (d.read file Header.start 80).mapError .unreadableHeader
  let bytes : HeaderBytes := Vector.ofFn fun i => (Bytes.get? raw i).getD 0
  let header ← (Header.ofBytes bytes).mapError .badHeader
  let savePath :=
    if header.controller.hasBattery then some (Path.withExtension path saveExtension) else none
  return ⟨path, savePath, header⟩

/-- The diagnostics of reading a header. -/
def ofFileNotes (r : Except CartridgeError Cartridge) : List Entry :=
  match r with
  | .error _ => []
  | .ok c =>
    [⟨.info,
        "cartridge '" ++ c.header.title ++ "': " ++ c.header.controller.text ++ ", " ++
          toString c.header.romBanks ++ " ROM bank(s), " ++ toString c.header.ramBanks ++
          " RAM bank(s)"⟩]

/-- The banks of RAM: what the header says, or what the controller has inside when it says none. -/
def ramBanks (c : Cartridge) : Nat :=
  if c.header.ramBanks = 0 then c.header.controller.builtInRamBanks else c.header.ramBanks

/-- Whether the RAM outlasts power-off. -/
def hasBattery (c : Cartridge) : Bool := c.header.controller.hasBattery

/-- The switchable ROM banks. -/
def switchBanks (c : Cartridge) : Nat := c.header.romBanks - 1

/-- Bank `k` of a ROM file. -/
def readBank (d : Disk) (file : Node) (k : Nat) : Except DiskError ByteArray :=
  d.read file (k * romBankSize) romBankSize

/-- The fixed bank of a ROM file and the `count` banks after it, or the error of the first bank that
the file does not hold. -/
def readRom (d : Disk) (file : Node) (count : Nat) :
    Except CartridgeError (ByteArray × ByteArray) := do
  let fixed ← (readBank d file 0).mapError .fixedBank
  let banks ← (List.range count).mapM fun k =>
    (readBank d file (k + 1)).mapError (.switchBank (k + 1))
  return (fixed, banks.foldl (· ++ ·) .empty)

/-- The ROM of a cartridge. -/
def rom (c : Cartridge) (d : Disk) : Except CartridgeError (ByteArray × ByteArray) := do
  let file ← (d.openRead c.romPath).mapError (.openRom c.romPath)
  readRom d file c.switchBanks

/-- Set up the RAM of a cartridge and copy its ROM into the memory map. -/
def load (c : Cartridge) (b : Board) : Except CartridgeError Unit × Board :=
  match b.attachRam c.ramBanks c.hasBattery c.savePath with
  | (.error e, b) => (.error (.saveFile e), b)
  | (.ok (), b) =>
    match c.rom b.disk with
    | .error e => (.error e, b)
    | .ok (fixed, banks) =>
      let map := (b.map.loadFixedRom fixed).loadSwitchRom banks c.switchBanks
      (.ok (), { b with map := map.select .switchRom 0 })

/-- The diagnostics of loading a cartridge onto a board, from its outcome. -/
def loadNotes (c : Cartridge) (r : Except CartridgeError Unit × Board) : List Entry :=
  let attached := r.2.attachNote c.ramBanks c.header.controller.text
  match r.1 with
  | .error (.saveFile _) => []
  | .error _ => [attached]
  | .ok () =>
    [attached,
      ⟨.debug,
        "loaded " ++ toString (c.header.romBanks * romBankSize) ++ " bytes from '" ++ c.romPath ++
          "'"⟩]

/-- The cartridge as diagnostics. -/
def report (c : Cartridge) : List Entry :=
  let k := c.header.controller
  [⟨.info, "cartridge rom=" ++ c.romPath⟩,
    ⟨.info, "cartridge sav=" ++ c.savePath.getD "<none>"⟩,
    ⟨.info,
      "cartridge title='" ++ c.header.title ++ "' controller=" ++ k.text ++ " (" ++
        Hex.byte0x k.code ++ ") rom_banks=" ++ toString c.header.romBanks ++ " ram_banks=" ++
        toString c.ramBanks ++ " persistent=" ++ toString c.hasBattery⟩]

end Cartridge

end DotMatrix
