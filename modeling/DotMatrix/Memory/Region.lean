/-!
# Regions of the address space

The 64 KiB of addresses fall into twelve regions.

* `Region.of` is the region of an address and `Region.base` the first address of a region.
* `Area` lists the regions that are backed by banks of bytes.
* `Place.of` says what is behind an address: a byte of an area, a byte of cartridge RAM, or nothing.
  An echo address leads to the same place as the work RAM address below it.
-/

namespace DotMatrix

/-- The regions of the address space. -/
inductive Region
  /-- The ROM bank that is always present. -/
  | fixedRom
  /-- The selected ROM bank. -/
  | switchRom
  | videoRam
  /-- RAM on the cartridge. -/
  | cartridgeRam
  | fixedWork
  /-- The selected bank of work RAM. -/
  | switchWork
  /-- Addresses that lead to work RAM once more. -/
  | echo
  /-- Object attributes. -/
  | objects
  /-- Addresses with nothing behind them. -/
  | unusable
  /-- Input and output registers. -/
  | inputOutput
  | highRam
  /-- The interrupt enable register. -/
  | enable
  deriving DecidableEq, Repr

namespace Region

/-- The region of an address. -/
def of (a : UInt16) : Region :=
  let n := a.toNat
  if n < 0x4000 then fixedRom
  else if n < 0x8000 then switchRom
  else if n < 0xA000 then videoRam
  else if n < 0xC000 then cartridgeRam
  else if n < 0xD000 then fixedWork
  else if n < 0xE000 then switchWork
  else if n < 0xFE00 then echo
  else if n < 0xFEA0 then objects
  else if n < 0xFF00 then unusable
  else if n < 0xFF80 then inputOutput
  else if n < 0xFFFF then highRam
  else enable

/-- The first address of a region. -/
def base : Region → UInt16
  | fixedRom => 0x0000
  | switchRom => 0x4000
  | videoRam => 0x8000
  | cartridgeRam => 0xA000
  | fixedWork => 0xC000
  | switchWork => 0xD000
  | echo => 0xE000
  | objects => 0xFE00
  | unusable => 0xFEA0
  | inputOutput => 0xFF00
  | highRam => 0xFF80
  | enable => 0xFFFF

/-- How far an address lies above the base of its region. -/
def offset (a : UInt16) : Nat := a.toNat - (of a).base.toNat

end Region

/-- The regions backed by banks. -/
inductive Area
  | fixedRom
  | switchRom
  | videoRam
  | fixedWork
  | switchWork
  | objects
  | inputOutput
  | highRam
  | enable
  deriving DecidableEq, Repr

namespace Area

/-- The name of an area in a message. -/
def label : Area → String
  | fixedRom => "ROM0"
  | switchRom => "ROM1"
  | videoRam => "VRAM"
  | fixedWork => "WRAM0"
  | switchWork => "WRAM1"
  | objects => "OAM"
  | inputOutput => "IO"
  | highRam => "HRAM"
  | enable => "IE"

/-- The size of a bank. -/
def bankSize : Area → Nat
  | fixedRom | switchRom => 0x4000
  | videoRam => 0x2000
  | fixedWork | switchWork => 0x1000
  | objects => 0xA0
  | inputOutput => 0x80
  | highRam => 0x7F
  | enable => 1

/-- Whether an area refuses writes. -/
def isRom : Area → Bool
  | fixedRom | switchRom => true
  | _ => false

end Area

/-- What is behind an address. -/
inductive Place
  /-- A byte of the selected bank of an area. -/
  | banked (area : Area) (offset : Nat)
  /-- A byte of the selected bank of cartridge RAM. -/
  | cartridge (offset : Nat)
  | unusable
  deriving DecidableEq, Repr

namespace Place

/-- The place behind an address. -/
def of (a : UInt16) : Place :=
  let o := Region.offset a
  match Region.of a with
  | .fixedRom => banked .fixedRom o
  | .switchRom => banked .switchRom o
  | .videoRam => banked .videoRam o
  | .cartridgeRam => cartridge o
  | .fixedWork => banked .fixedWork o
  | .switchWork => banked .switchWork o
  | .echo => if o < 0x1000 then banked .fixedWork o else banked .switchWork (o - 0x1000)
  | .objects => banked .objects o
  | .unusable => unusable
  | .inputOutput => banked .inputOutput o
  | .highRam => banked .highRam o
  | .enable => banked .enable o

/-- The address that messages name for an access: below work RAM for an echo, else itself. -/
def home (a : UInt16) : UInt16 := if Region.of a = .echo then a - 0x2000 else a

end Place

end DotMatrix
