import DotMatrix.Processor.Machine

/-!
# Interrupts

Five interrupt lines are requested in IF and enabled in IE, bit by bit; the lowest bit is served
first. `Interrupt.pending` picks the enabled requests, `Interrupt.first?` the one to serve.

`Machine.firstInterrupt` polls the lines, `Machine.enterHandler` serves one, and
`Machine.settleRequest` carries a request of DI or EI on to its effect.
-/

namespace DotMatrix

namespace Interrupt

/-- The address of the request byte IF. -/
def requestAddress : UInt16 := 0xFF0F

/-- The address of the enable byte IE. -/
def enableAddress : UInt16 := 0xFFFF

/-- The five interrupt lines of a byte. -/
def lines (v : UInt8) : UInt8 := v &&& 0x1F

/-- The lines that are both enabled and requested. -/
def pending (enabled requested : UInt8) : UInt8 := lines enabled &&& lines requested

/-- The lowest line of a byte, if it has any. -/
def first? (v : UInt8) : Option Nat := (List.range 5).find? v.toNat.testBit

/-- The address of the handler of a line. -/
def vector (i : Nat) : UInt16 := UInt16.ofNat (0x40 + 8 * i)

end Interrupt

namespace Machine

variable {σ : Type} [Bus σ]

/-- Poll IE, then IF. -/
def pollInterrupts (m : Machine σ) : UInt8 × Machine σ :=
  let (enabled, m) := m.sample Interrupt.enableAddress
  let (requested, m) := m.sample Interrupt.requestAddress
  (Interrupt.pending enabled requested, m)

/-- Enter the handler of a line: the line's request and the master enable are cleared, the program
counter is pushed, and a halted processor wakes. -/
def enterHandler (m : Machine σ) (i : Nat) : Machine σ :=
  let m := { m with cpu := { m.cpu with ime := false, halted := false } }
  let (requested, m) := m.sample Interrupt.requestAddress
  let m := m.put Interrupt.requestAddress (requested &&& ~~~BitOp.mask i)
  let pc := m.cpu.regs.pc
  let m := m.mapRegs fun r => { r with sp := r.sp - 1 }
  let m := m.put m.cpu.regs.sp (Word.high pc)
  let m := m.mapRegs fun r => { r with sp := r.sp - 1 }
  let sp := m.cpu.regs.sp
  let m := m.put sp (Word.low pc)
  let m := m.note .debug fun _ =>
    "interrupt: idx=" ++ toString i ++ " vector=" ++ Hex.word0x (Interrupt.vector i) ++ " pc=" ++
      Hex.word0x pc ++ " sp=" ++ Hex.word0x sp
  m.goto (Interrupt.vector i)

/-- The line to serve now, if the master enable is set and one is pending. -/
def firstInterrupt (m : Machine σ) : Option Nat × Machine σ :=
  if m.cpu.ime then
    let (pending, m) := m.pollInterrupts
    (Interrupt.first? pending, m)
  else (none, m)

omit [Bus σ]

/-- Carry a request on: one made by this instruction is armed, an armed one takes effect. -/
def settleRequest (m : Machine σ) : Machine σ :=
  match m.cpu.request.value? with
  | none => m
  | some e =>
    if m.cpu.request.isArmed then
      { m with cpu := { m.cpu with ime := e, request := { value? := none, isArmed := false } } }
    else { m with cpu := { m.cpu with request := { m.cpu.request with isArmed := true } } }

end Machine

end DotMatrix
