import DotMatrix.Journal
import DotMatrix.Memory.Bank
import DotMatrix.Memory.CartridgeRam
import DotMatrix.Memory.Region

/-!
# The memory map

A memory map has a window for each banked area, the cartridge RAM and the number of its selected
bank.

* `Cell` is a physical byte: a bank and an offset. `MemoryMap.cell?` is the cell that an address
  leads to at the moment, for reading and writing alike.
* `MemoryMap.read` honours locks, `MemoryMap.readUnlocked` does not; both answer an open bus where
  there is no byte. `MemoryMap.peek` ignores locks and answers zero instead.
* `MemoryMap.write` drops what cannot be written.
* `MemoryMap.readNotes` and `MemoryMap.writeNotes` are the diagnostics of an access.
-/

namespace DotMatrix

/-- A physical byte. -/
inductive Cell
  /-- A byte of a bank of an area. -/
  | bank (area : Area) (index offset : Nat)
  /-- A byte of a bank of cartridge RAM. -/
  | ram (index offset : Nat)
  deriving DecidableEq, Repr

/-- The banked memory map. -/
structure MemoryMap where
  fixedRom : Window := .zeros 1 0x4000
  switchRom : Window := .zeros 0 0x4000
  videoRam : Window := .zeros 2 0x2000
  fixedWork : Window := .zeros 1 0x1000
  switchWork : Window := .zeros 7 0x1000
  objects : Window := .zeros 1 0xA0
  inputOutput : Window := .zeros 1 0x80
  highRam : Window := .zeros 1 0x7F
  enable : Window := .zeros 1 1
  ram : CartridgeRam := .none
  /-- The selected bank of cartridge RAM. -/
  ramIndex : Nat := 0
  deriving DecidableEq

namespace MemoryMap

/-- The byte of a read that nothing answers. -/
def openBus : UInt8 := 0xFF

/-- The window of an area. -/
def window (m : MemoryMap) : Area → Window
  | .fixedRom => m.fixedRom
  | .switchRom => m.switchRom
  | .videoRam => m.videoRam
  | .fixedWork => m.fixedWork
  | .switchWork => m.switchWork
  | .objects => m.objects
  | .inputOutput => m.inputOutput
  | .highRam => m.highRam
  | .enable => m.enable

/-- Change the window of an area. -/
def mapWindow (m : MemoryMap) (area : Area) (g : Window → Window) : MemoryMap :=
  match area with
  | .fixedRom => { m with fixedRom := g m.fixedRom }
  | .switchRom => { m with switchRom := g m.switchRom }
  | .videoRam => { m with videoRam := g m.videoRam }
  | .fixedWork => { m with fixedWork := g m.fixedWork }
  | .switchWork => { m with switchWork := g m.switchWork }
  | .objects => { m with objects := g m.objects }
  | .inputOutput => { m with inputOutput := g m.inputOutput }
  | .highRam => { m with highRam := g m.highRam }
  | .enable => { m with enable := g m.enable }

theorem window_mapWindow (m : MemoryMap) (a b : Area) (g : Window → Window) :
    (m.mapWindow a g).window b = if a = b then g (m.window b) else m.window b := by
  cases a <;> cases b <;> rfl

@[simp] theorem ram_mapWindow (m : MemoryMap) (a : Area) (g : Window → Window) :
    (m.mapWindow a g).ram = m.ram := by
  cases a <;> rfl

@[simp] theorem ramIndex_mapWindow (m : MemoryMap) (a : Area) (g : Window → Window) :
    (m.mapWindow a g).ramIndex = m.ramIndex := by
  cases a <;> rfl

/-! ### Cells -/

/-- The cell that an address leads to. -/
def cell? (m : MemoryMap) (a : UInt16) : Except Miss Cell :=
  match Place.of a with
  | .unusable => .error .unusable
  | .banked area o =>
    let w := m.window area
    if w.selected < w.banks.size then .ok (.bank area w.selected o)
    else .error (.failed (.noSuchBank area.label w.selected w.banks.size))
  | .cartridge o =>
    if m.ramIndex < m.ram.bankCount then .ok (.ram m.ramIndex o)
    else .error (.failed (m.ram.noSuchBank m.ramIndex))

/-- The byte of a cell. -/
def get (m : MemoryMap) (d : Disk) : Cell → Except Miss UInt8
  | .bank area i o =>
    match (m.window area).get? i o with
    | some v => .ok v
    | none => .error (.pastEnd o)
  | .ram i o => m.ram.get d i o

/-- Whether the bank of a cell is locked. -/
def isLocked (m : MemoryMap) : Cell → Bool
  | .bank area i _ => (m.window area).isLocked i
  | .ram .. => false

/-- Write to a cell, unless it is ROM or locked. -/
def put (m : MemoryMap) (d : Disk) (c : Cell) (v : UInt8) : MemoryMap × Disk :=
  match c with
  | .bank area i o =>
    if area.isRom || (m.window area).isLocked i then (m, d)
    else (m.mapWindow area (·.set i o v), d)
  | .ram i o =>
    let (ram, d) := m.ram.put d i o v
    ({ m with ram := ram }, d)

/-! ### Accesses -/

/-- The byte behind an address, whatever the locks. -/
def lookup (m : MemoryMap) (d : Disk) (a : UInt16) : Except Miss UInt8 := do
  m.get d (← m.cell? a)

/-- Read as a processor does. -/
def read (m : MemoryMap) (d : Disk) (a : UInt16) : UInt8 :=
  match m.cell? a with
  | .error _ => openBus
  | .ok c => if m.isLocked c then openBus else (m.get d c).toOption.getD openBus

/-- Read as if nothing were locked. -/
def readUnlocked (m : MemoryMap) (d : Disk) (a : UInt16) : UInt8 :=
  (m.lookup d a).toOption.getD openBus

/-- Read for diagnostics: as if nothing were locked, and zero where there is no byte. -/
def peek (m : MemoryMap) (d : Disk) (a : UInt16) : UInt8 := (m.lookup d a).toOption.getD 0

/-- Write as a processor does. -/
def write (m : MemoryMap) (d : Disk) (a : UInt16) (v : UInt8) : MemoryMap × Disk :=
  match m.cell? a with
  | .error _ => (m, d)
  | .ok c => m.put d c v

/-! ### Diagnostics -/

/-- The diagnostic of a memory error at an address. -/
def errorNote (m : MemoryMap) (e : MemoryError) (a : UInt16) : Entry :=
  match e with
  | .saveAccess .. =>
    ⟨.warn, e.message ++ " at " ++ Hex.word0x a ++ " (" ++ m.ram.savePath?.getD "" ++ ")"⟩
  | e =>
    ⟨.debug,
      e.message ++ " at " ++ Hex.word0x a ++ " (rom1=" ++ toString m.switchRom.selected ++
        " vram=" ++ toString m.videoRam.selected ++ " wram1=" ++
        toString m.switchWork.selected ++ " eram=" ++ toString m.ramIndex ++ ")"⟩

/-- The diagnostics of a read. Locks give rise to none. -/
def readNotes (m : MemoryMap) (d : Disk) (a : UInt16) : List Entry :=
  match m.lookup d a with
  | .ok _ => []
  | .error .unusable => [⟨.debug, "read from unusable address " ++ Hex.word0x a⟩]
  | .error (.failed e) => [m.errorNote e (Place.home a)]
  | .error (.pastEnd _) => []

/-- The diagnostics of a write. Locks give rise to none. -/
def writeNotes (m : MemoryMap) (a : UInt16) (v : UInt8) : List Entry :=
  let rejected : List Entry :=
    [⟨.debug, "rejected write " ++ Hex.byte0x v ++ " to ROM address " ++ Hex.word0x a⟩]
  match Place.of a, m.cell? a with
  | .banked .fixedRom _, _ | .banked .switchRom _, _ => rejected
  | .unusable, _ =>
    [⟨.debug,
        "dropped write " ++ Hex.byte0x v ++ " to unusable address " ++ Hex.word0x a⟩]
  | _, .error (.failed e) => [m.errorNote e (Place.home a)]
  | _, _ => []

/-- The row of 32 bytes from an address on, as text. -/
def rowText (m : MemoryMap) (d : Disk) (row : Nat) : String :=
  let bytes := (List.range 32).map fun i => Hex.byte (m.peek d (UInt16.ofNat (row + i)))
  Hex.digits 16 4 row ++ ": " ++ " ".intercalate bytes

/-- The whole address space in rows, as diagnostics. -/
def report (m : MemoryMap) (d : Disk) : List Entry :=
  (List.range 2048).map fun i => ⟨.trace, m.rowText d (32 * i)⟩

/-! ### Configuration -/

/-- Replace the fixed ROM bank. -/
def loadFixedRom (m : MemoryMap) (data : ByteArray) : MemoryMap :=
  { m with fixedRom := ⟨#[{ data := data }], 0⟩ }

/-- The bank of 0x4000 bytes that data holds at a bank number, with zeros past its end. -/
def romBank (data : ByteArray) (n : Nat) : Bank :=
  { data := Bytes.resize (data.extract (n * 0x4000) ((n + 1) * 0x4000)) 0x4000 }

/-- Bank `n` holds the bytes of the data from `n * 0x4000` on, and zeros past its end. -/
theorem get?_romBank (data : ByteArray) (n o : Nat) :
    (romBank data n).get? o =
      if o < 0x4000 then some ((Bytes.get? data (n * 0x4000 + o)).getD 0) else none := by
  have hs : (data.extract (n * 0x4000) ((n + 1) * 0x4000)).size =
      min ((n + 1) * 0x4000) data.size - n * 0x4000 := ByteArray.size_extract
  rw [romBank, Bank.get?, Bytes.get?_resize, Bytes.get?_extract, hs]
  by_cases ho : o < 0x4000
  · rw [if_neg (by omega), if_pos ho]
    by_cases hd : n * 0x4000 + o < data.size
    · rw [if_neg (by omega), if_pos (by omega), Bytes.get?, dif_pos hd, Option.getD_some]
    · have hn : Bytes.get? data (n * 0x4000 + o) = none :=
        (Bytes.get?_eq_none_iff _ _).2 (Nat.le_of_not_lt hd)
      rw [if_pos (by omega), hn, Option.getD_none]
  · rw [if_pos (by omega), if_neg ho]

/-- Replace the switchable ROM banks by the first `count` banks of data. -/
def loadSwitchRom (m : MemoryMap) (data : ByteArray) (count : Nat) : MemoryMap :=
  { m with
    switchRom := { m.switchRom with banks := (Array.range count).map (romBank data) } }

/-- Select a bank of an area. -/
def select (m : MemoryMap) (area : Area) (index : Nat) : MemoryMap :=
  m.mapWindow area (·.select index)

/-- Select a bank of cartridge RAM. -/
def selectRam (m : MemoryMap) (index : Nat) : MemoryMap := { m with ramIndex := index }

/-- Lock or unlock every bank of an area. -/
def setLocked (m : MemoryMap) (area : Area) (locked : Bool) : MemoryMap :=
  m.mapWindow area (·.setLocked locked)

/-- Replace the cartridge RAM and select its first bank. -/
def setRam (m : MemoryMap) (ram : CartridgeRam) : MemoryMap := { m with ram := ram, ramIndex := 0 }

end MemoryMap

end DotMatrix
