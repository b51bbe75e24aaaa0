import DotMatrix.Processor.Arithmetic
import DotMatrix.Processor.Bus
import DotMatrix.Processor.Listing

/-!
# Processor, bus and journal

`Cpu` is the state of the processor between instructions. `Machine` is a processor on a bus, with
the journal that both write to.

Accesses come in two kinds. A counted access (`Machine.read`, `Machine.write`) costs four cycles of
the current instruction. An uncounted one (`Machine.sample`, `Machine.put`) costs nothing: it is how
interrupt lines are polled.

`Machine.readOperand`, `Machine.writeOperand` and `Machine.modifyOperand` make the accesses that an
addressing mode needs, in the order that the hardware makes them.
-/

namespace DotMatrix

/-- A request to change the interrupt master enable, made by DI or EI. It takes effect after the
instruction that follows. -/
structure ImeRequest where
  /-- The requested value, if there is a request. -/
  value? : Option Bool := none
  /-- Set when the instruction that made the request is complete. -/
  isArmed : Bool := false
  deriving DecidableEq, Repr

namespace ImeRequest

/-- No request. -/
def none : ImeRequest := {}

/-- A request made by the current instruction. -/
def scheduled (enable : Bool) : ImeRequest := { value? := some enable }

/-- A request made by an earlier instruction. -/
def armed (enable : Bool) : ImeRequest := { value? := some enable, isArmed := true }

end ImeRequest

/-- The state of the processor. -/
structure Cpu where
  regs : Registers := {}
  /-- The decoded flags; between instructions F holds them. -/
  flags : Flags := {}
  /-- The interrupt master enable. -/
  ime : Bool := false
  halted : Bool := false
  stopped : Bool := false
  /-- The joypad lines that were high when STOP was executed. -/
  stopLines : UInt8 := 0x0F
  request : ImeRequest := .none
  rules : FlagRules := {}
  /-- The counted accesses of the current instruction. -/
  accesses : Nat := 0
  /-- The last instruction that was fetched. -/
  last : Fetched := {}
  deriving DecidableEq, Repr

namespace Cpu

/-- A processor as it is switched on, keeping its flag rules and the record of its last
instruction. -/
def reset (cpu : Cpu) : Cpu := { rules := cpu.rules, last := cpu.last }

/-- The register file, interrupt state and last instruction, as diagnostics. -/
def report (cpu : Cpu) : List Entry :=
  let r := cpu.regs
  let pending :=
    match cpu.request.value? with
    | none => "None"
    | some e => "Some(" ++ toString e ++ ")"
  [⟨.info,
      "CPU A=" ++ Hex.byte r.a ++ " F=" ++ Hex.byte r.f ++ " [" ++ (Flags.ofByte r.f).text ++
        "] B=" ++ Hex.byte r.b ++ " C=" ++ Hex.byte r.c ++ " D=" ++ Hex.byte r.d ++
        " E=" ++ Hex.byte r.e ++ " H=" ++ Hex.byte r.h ++ " L=" ++ Hex.byte r.l ++
        " SP=" ++ Hex.word r.sp ++ " PC=" ++ Hex.word r.pc⟩,
    ⟨.info,
      "CPU ime=" ++ toString cpu.ime ++ " pending=" ++ pending ++ " halted=" ++
        toString cpu.halted ++ " stopped=" ++ toString cpu.stopped⟩,
    ⟨.info, "CPU last: " ++ cpu.last.text⟩]

end Cpu

/-- A processor on a bus, and their journal. -/
structure Machine (σ : Type) where
  cpu : Cpu := {}
  bus : σ
  journal : Journal := {}

namespace Machine

variable {σ : Type}

/-- Add a diagnostic. -/
def note (m : Machine σ) (l : Level) (text : Unit → String) : Machine σ :=
  { m with journal := m.journal.note l text }

/-- Add a list of diagnostics. -/
def noteAll (m : Machine σ) (es : Unit → List Entry) : Machine σ :=
  { m with journal := m.journal.noteAll es }

/-- Change the registers. -/
def mapRegs (m : Machine σ) (g : Registers → Registers) : Machine σ :=
  { m with cpu := { m.cpu with regs := g m.cpu.regs } }

/-- Replace the flags. -/
def setFlags (m : Machine σ) (fl : Flags) : Machine σ :=
  { m with cpu := { m.cpu with flags := fl } }

/-- Replace A and the flags. -/
def setResult (m : Machine σ) (r : UInt8 × Flags) : Machine σ :=
  { m with cpu := { m.cpu with regs := { m.cpu.regs with a := r.1 }, flags := r.2 } }

/-- Go on at another address. -/
def goto (m : Machine σ) (pc : UInt16) : Machine σ :=
  m.mapRegs fun r => { r with pc := pc }

/-- The byte register that a selector names. -/
def byteReg (m : Machine σ) (s : Selector) : Except Fault UInt8 :=
  Fault.ofWidth (m.cpu.regs.byte s)

/-- The word register that a selector names. -/
def wordReg (m : Machine σ) (s : Selector) : Except Fault UInt16 :=
  Fault.ofWidth (m.cpu.regs.word s)

/-- Set the byte register that a selector names. -/
def setByteReg (m : Machine σ) (s : Selector) (v : UInt8) : Except Fault (Machine σ) := do
  let regs ← Fault.ofWidth (m.cpu.regs.setByte s v)
  return { m with cpu := { m.cpu with regs := regs } }

/-- Set the word register that a selector names. -/
def setWordReg (m : Machine σ) (s : Selector) (w : UInt16) : Except Fault (Machine σ) := do
  let regs ← Fault.ofWidth (m.cpu.regs.setWord s w)
  return { m with cpu := { m.cpu with regs := regs } }

@[simp] theorem cpu_note (m : Machine σ) (l : Level) (t : Unit → String) :
    (m.note l t).cpu = m.cpu := rfl

@[simp] theorem bus_note (m : Machine σ) (l : Level) (t : Unit → String) :
    (m.note l t).bus = m.bus := rfl

variable [Bus σ]

/-! ### Accesses -/

/-- An uncounted read. -/
def sample (m : Machine σ) (a : UInt16) : UInt8 × Machine σ :=
  let m := m.noteAll fun _ => Bus.readNotes m.bus a
  let (v, bus) := Bus.read m.bus a
  (v, { m with bus := bus })

/-- An uncounted write. -/
def put (m : Machine σ) (a : UInt16) (v : UInt8) : Machine σ :=
  let m := m.noteAll fun _ => Bus.writeNotes m.bus a v
  { m with bus := Bus.write m.bus a v }

/-- Count one access. -/
def tick (m : Machine σ) : Machine σ :=
  { m with cpu := { m.cpu with accesses := m.cpu.accesses + 1 } }

/-- A counted read. -/
def read (m : Machine σ) (a : UInt16) : UInt8 × Machine σ := m.tick.sample a

/-- A counted write. -/
def write (m : Machine σ) (a : UInt16) (v : UInt8) : Machine σ := m.tick.put a v

/-- Read the byte at the program counter and move on. -/
def fetchByte (m : Machine σ) : UInt8 × Machine σ :=
  let (v, m) := m.read m.cpu.regs.pc
  (v, m.goto (m.cpu.regs.pc + 1))

/-- Read the word at the program counter, low byte first, and move on. -/
def fetchWord (m : Machine σ) : UInt16 × Machine σ :=
  let (lo, m) := m.fetchByte
  let (hi, m) := m.fetchByte
  (Word.ofBytes hi lo, m)

/-- Push a word: the high byte goes below SP, the low byte below that. -/
def push (m : Machine σ) (w : UInt16) : Machine σ :=
  let m := m.mapRegs fun r => { r with sp := r.sp - 1 }
  let m := m.write m.cpu.regs.sp (Word.high w)
  let m := m.mapRegs fun r => { r with sp := r.sp - 1 }
  m.write m.cpu.regs.sp (Word.low w)

/-- Pop a word: the low byte is at SP, the high byte above it. -/
def pop (m : Machine σ) : UInt16 × Machine σ :=
  let (lo, m) := m.read m.cpu.regs.sp
  let (hi, m) := m.read (m.cpu.regs.sp + 1)
  (Word.ofBytes hi lo, m.mapRegs fun r => { r with sp := r.sp + 2 })

section Accesses

variable (m : Machine σ) (a : UInt16) (v : UInt8)

@[simp] theorem fst_sample : (m.sample a).1 = (Bus.read m.bus a).1 := rfl

@[simp] theorem bus_sample : (m.sample a).2.bus = (Bus.read m.bus a).2 := rfl

@[simp] theorem cpu_sample : (m.sample a).2.cpu = m.cpu := rfl

@[simp] theorem bus_put : (m.put a v).bus = Bus.write m.bus a v := rfl

@[simp] theorem cpu_put : (m.put a v).cpu = m.cpu := rfl

@[simp] theorem fst_read : (m.read a).1 = (Bus.read m.bus a).1 := rfl

@[simp] theorem bus_read : (m.read a).2.bus = (Bus.read m.bus a).2 := rfl

@[simp] theorem cpu_read :
    (m.read a).2.cpu = { m.cpu with accesses := m.cpu.accesses + 1 } := rfl

@[simp] theorem bus_write : (m.write a v).bus = Bus.write m.bus a v := rfl

@[simp] theorem cpu_write :
    (m.write a v).cpu = { m.cpu with accesses := m.cpu.accesses + 1 } := rfl

end Accesses

/-! ### Operands -/

/-- The address FF00 plus a byte. -/
def highAddress (n : UInt8) : UInt16 := Word.ofBytes 0xFF n

/-- The address of an operand in memory, after the fetches and the change of HL that finding it
takes. -/
def address (m : Machine σ) : Operand → Except Fault (UInt16 × Machine σ)
  | .indirect s => do return (← m.wordReg s, m)
  | .indirectInc => .ok (m.cpu.regs.hl, m.mapRegs fun r => r.setHl (r.hl + 1))
  | .indirectDec => .ok (m.cpu.regs.hl, m.mapRegs fun r => r.setHl (r.hl - 1))
  | .absolute => .ok m.fetchWord
  | .highImmediate =>
    let (n, m) := m.fetchByte
    .ok (highAddress n, m)
  | .highC => .ok (highAddress m.cpu.regs.c, m)
  | o => .error (.notAddressable o)

/-- Read a byte operand. -/
def readOperand (m : Machine σ) : Operand → Except Fault (UInt8 × Machine σ)
  | .register s => do return (← m.byteReg s, m)
  | .immediate => .ok m.fetchByte
  | o => do
    let (a, m) ← m.address o
    return m.read a

/-- Write a byte operand. -/
def writeOperand (m : Machine σ) (o : Operand) (v : UInt8) : Except Fault (Machine σ) :=
  match o with
  | .register s => m.setByteReg s v
  | .immediate => .error .storeToImmediate
  | o => do
    let (a, m) ← m.address o
    return m.write a v

/-- Read a register or memory at a pair, and write back what `g` makes of it, if anything. -/
def modifyOperand (m : Machine σ) (o : Operand)
    (g : UInt8 → Flags → Except Fault (Option UInt8 × Flags)) : Except Fault (Machine σ) :=
  match o with
  | .register s => do
    let v ← m.byteReg s
    let (result, fl) ← g v m.cpu.flags
    let m := m.setFlags fl
    match result with
    | some v => m.setByteReg s v
    | none => return m
  | .indirect s => do
    let a ← m.wordReg s
    let (v, m) := m.read a
    let (result, fl) ← g v m.cpu.flags
    let m := m.setFlags fl
    match result with
    | some v => return m.write a v
    | none => return m
  | o => .error (.notModifiable o)

end Machine

end DotMatrix
