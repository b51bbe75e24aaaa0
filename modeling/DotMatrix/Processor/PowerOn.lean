import DotMatrix.Processor.Machine

/-!
# The power-on state

What the start-up program of the console leaves behind when it hands over at 0x0100: the registers
(`Machine.powerOn`) and the input/output registers (`PowerOn.table`). Register B depends on the
cartridge: it is the sum of the title bytes of a game by the console's own publisher, and HL depends
on B.
-/

namespace DotMatrix

namespace PowerOn

/-- The input/output registers and their values, in the order they are written. -/
def table : List (UInt16 × UInt8) :=
  [(0xFF00, 0xC7), (0xFF01, 0x00), (0xFF02, 0x7F), (0xFF04, 0x00), (0xFF05, 0x00), (0xFF06, 0x00),
    (0xFF07, 0xF8), (0xFF0F, 0xE1), (0xFF10, 0x80), (0xFF11, 0xBF), (0xFF12, 0xF3), (0xFF13, 0xFF),
    (0xFF14, 0xBF), (0xFF16, 0x3F), (0xFF17, 0x00), (0xFF18, 0xFF), (0xFF19, 0xBF), (0xFF1A, 0x7F),
    (0xFF1B, 0xFF), (0xFF1C, 0x9F), (0xFF1D, 0xFF), (0xFF1E, 0xBF), (0xFF20, 0xFF), (0xFF21, 0x00),
    (0xFF22, 0x00), (0xFF23, 0xBF), (0xFF24, 0x77), (0xFF25, 0xF3), (0xFF26, 0xF1), (0xFF40, 0x91),
    (0xFF41, 0x00), (0xFF42, 0x00), (0xFF43, 0x00), (0xFF44, 0x00), (0xFF45, 0x00), (0xFF46, 0x00),
    (0xFF47, 0xFC), (0xFF48, 0x00), (0xFF49, 0x00), (0xFF4A, 0x00), (0xFF4B, 0x00), (0xFF4D, 0xFF),
    (0xFF4F, 0xFF), (0xFF51, 0xFF), (0xFF52, 0xFF), (0xFF53, 0xFF), (0xFF54, 0xFF), (0xFF55, 0xFF),
    (0xFF56, 0xFF), (0xFF68, 0x00), (0xFF69, 0x00), (0xFF6A, 0x00), (0xFF6B, 0x00), (0xFF70, 0xFF),
    (0xFFFF, 0x00)]

/-- The addresses of the sixteen title bytes. -/
def titleAddresses : List UInt16 := (List.range 16).map fun i => UInt16.ofNat (0x134 + i)

/-- Whether the licensee codes name the console's own publisher. -/
def licensed (old new₁ new₂ : UInt8) : Bool :=
  old == 0x01 || (old == 0x33 && new₁ == 0x30 && new₂ == 0x31)

/-- The registers for a value of B. -/
def registers (b : UInt8) : Registers :=
  Registers.setHl { a := 0x11, f := 0x80, b := b, sp := 0xFFFE, pc := 0x0100 }
    (if b == 0x43 || b == 0x58 then 0x991A else 0x007C)

end PowerOn

namespace Machine

variable {σ : Type} [Bus σ]

/-- The sum, modulo 2^8, of the bytes at some addresses. -/
def sumBytes (m : Machine σ) (as : List UInt16) : UInt8 × Machine σ :=
  as.foldl
    (fun (sum, m) a =>
      let (v, m) := m.sample a
      (sum + v, m))
    (0, m)

/-- Bring a machine into the power-on state. -/
def powerOn (m : Machine σ) : Machine σ :=
  let m := { m with cpu := m.cpu.reset }
  let (old, m) := m.sample 0x014B
  let (new₁, m) := m.sample 0x0144
  let (new₂, m) := m.sample 0x0145
  let (b, m) :=
    if PowerOn.licensed old new₁ new₂ then m.sumBytes PowerOn.titleAddresses else (0, m)
  let regs := PowerOn.registers b
  let m := { m with cpu := { m.cpu with regs := regs, flags := .ofByte regs.f } }
  PowerOn.table.foldl (fun m (a, v) => m.put a v) m

end Machine

end DotMatrix
