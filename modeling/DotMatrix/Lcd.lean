import DotMatrix.Memory.Board

/-!
# The LCD registers

The LCD has eleven registers in the window 0xFF40 to 0xFF4B; 0xFF46, between them, is not one of
them. `Lcd.step` loads them from the memory map, lets the LCD work, and stores them back. The LCD
stays in the mode in which it searches for objects.
-/

namespace DotMatrix

/-- The modes of the LCD. -/
inductive LcdMode
  | horizontalBlank
  | verticalBlank
  | objectSearch
  | pixelTransfer
  deriving DecidableEq, Repr

/-- The registers of the LCD. -/
structure LcdRegisters where
  lcdc : UInt8 := 0
  stat : UInt8 := 0
  scy : UInt8 := 0
  scx : UInt8 := 0
  ly : UInt8 := 0
  lyc : UInt8 := 0
  bgp : UInt8 := 0
  obp0 : UInt8 := 0
  obp1 : UInt8 := 0
  wy : UInt8 := 0
  wx : UInt8 := 0
  deriving DecidableEq, Repr

namespace LcdRegisters

/-- The registers, each with its address, in ascending order. -/
def addressed (r : LcdRegisters) : List (UInt16 × UInt8) :=
  [(0xFF40, r.lcdc), (0xFF41, r.stat), (0xFF42, r.scy), (0xFF43, r.scx), (0xFF44, r.ly),
    (0xFF45, r.lyc), (0xFF47, r.bgp), (0xFF48, r.obp0), (0xFF49, r.obp1), (0xFF4A, r.wy),
    (0xFF4B, r.wx)]

/-- The registers that a function gives for their addresses. -/
def ofAddressed (g : UInt16 → UInt8) : LcdRegisters where
  lcdc := g 0xFF40
  stat := g 0xFF41
  scy := g 0xFF42
  scx := g 0xFF43
  ly := g 0xFF44
  lyc := g 0xFF45
  bgp := g 0xFF47
  obp0 := g 0xFF48
  obp1 := g 0xFF49
  wy := g 0xFF4A
  wx := g 0xFF4B

end LcdRegisters

/-- The LCD. -/
structure Lcd where
  regs : LcdRegisters := {}
  mode : LcdMode := .objectSearch
  deriving DecidableEq, Repr

namespace Lcd

/-- Let the LCD work for some cycles, and return the board with its registers stored back. -/
def step (lcd : Lcd) (_cycles : Nat) (b : Board) : Lcd × Board :=
  let regs := LcdRegisters.ofAddressed fun a => b.map.readUnlocked b.disk a
  ({ lcd with regs := regs },
    regs.addressed.foldl (fun b (a, v) => Bus.write b a v) b)

/-- The name of a mode in a message. -/
def modeText : LcdMode → String
  | .horizontalBlank => "HBlank"
  | .verticalBlank => "VBlank"
  | .objectSearch => "OamSearch"
  | .pixelTransfer => "PixelTransfer"

/-- The registers as diagnostics. -/
def report (lcd : Lcd) : List Entry :=
  let r := lcd.regs
  [⟨.debug, "PPU LCDC=" ++ Hex.byte0b r.lcdc ++ " STAT=" ++ Hex.byte0b r.stat⟩,
    ⟨.debug,
      "PPU SCX=" ++ toString r.scx ++ " SCY=" ++ toString r.scy ++ " LY=" ++ toString r.ly ++
        " LYC=" ++ toString r.lyc⟩,
    ⟨.debug,
      "PPU BGP=" ++ Hex.byte0x r.bgp ++ " OBP0=" ++ Hex.byte0x r.obp0 ++ " OBP1=" ++
        Hex.byte0x r.obp1⟩,
    ⟨.debug,
      "PPU WY=" ++ toString r.wy ++ " WX=" ++ toString r.wx ++ " mode=" ++ modeText lcd.mode⟩]

end Lcd

end DotMatrix
