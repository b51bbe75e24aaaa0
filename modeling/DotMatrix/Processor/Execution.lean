import DotMatrix.Processor.Machine

/-!
# Execution

What each operation does to a machine. `Machine.execBase` executes an operation of the first page
and `Machine.execBit` one of the second; both start with the program counter after the opcode.
-/

namespace DotMatrix.Machine

variable {σ : Type} [Bus σ]

/-! ### Loads -/

/-- Load a word register with the word after the opcode. -/
def execLoadWord (m : Machine σ) (s : Selector) : Except Fault (Machine σ) :=
  if s = .bc ∨ s = .de ∨ s = .hl ∨ s = .sp then
    let (w, m) := m.fetchWord
    m.setWordReg s w
  else .error (.notLoadable s)

/-- Store SP, low byte first, at the word after the opcode. -/
def execStoreSp (m : Machine σ) : Machine σ :=
  let (a, m) := m.fetchWord
  let w := m.cpu.regs.sp
  (m.write a (Word.low w)).write (a + 1) (Word.high w)

/-! ### Arithmetic -/

/-- Add to HL. -/
def execAddHl (m : Machine σ) (s : Selector) : Except Fault (Machine σ) := do
  let w ← m.wordReg s
  let (w, fl) := Arithmetic.addWords m.cpu.regs.hl w m.cpu.flags
  return (m.mapRegs fun r => r.setHl w).setFlags fl

/-- The sum of SP and the signed byte after the opcode, whose flags are set. -/
def execSpOffset (m : Machine σ) : UInt16 × Machine σ :=
  let (n, m) := m.fetchByte
  let (w, fl) := Arithmetic.offset m.cpu.regs.sp n
  (w, m.setFlags fl)

/-! ### The stack -/

/-- Push a pair; F is pushed as the flags stand now. -/
def execPush (m : Machine σ) (s : Selector) : Except Fault (Machine σ) :=
  match s with
  | .af => .ok (m.push (Word.ofBytes m.cpu.regs.a m.cpu.flags.toByte))
  | s => do return m.push (← m.wordReg s)

/-- Pop a pair; a popped F sets the flags. -/
def execPop (m : Machine σ) (s : Selector) : Except Fault (Machine σ) := do
  let (w, m) := m.pop
  let m ← m.setWordReg s w
  return if s = .af then m.setFlags (.ofByte m.cpu.regs.f) else m

/-! ### Control flow -/

/-- Jump to the word after the opcode, which is fetched either way. -/
def execJump (m : Machine σ) (c : Condition) : Machine σ :=
  let (a, m) := m.fetchWord
  if c.holds m.cpu.flags then m.goto a else m

/-- Jump by the signed byte after the opcode, counted from the next instruction. -/
def execJumpRelative (m : Machine σ) (c : Condition) : Machine σ :=
  let (n, m) := m.fetchByte
  if c.holds m.cpu.flags then m.goto (Word.addSigned m.cpu.regs.pc n) else m

/-- Call the word after the opcode, which is fetched either way. -/
def execCall (m : Machine σ) (c : Condition) : Machine σ :=
  let (a, m) := m.fetchWord
  if c.holds m.cpu.flags then (m.push m.cpu.regs.pc).goto a else m

/-- Return to the word on the stack. -/
def execRet (m : Machine σ) (c : Condition) : Machine σ :=
  if c.holds m.cpu.flags then
    let (a, m) := m.pop
    m.goto a
  else m

/-- Return and enable interrupts at once, whatever was requested before. -/
def execReti (m : Machine σ) : Machine σ :=
  let (a, m) := m.pop
  let m := m.goto a
  { m with cpu := { m.cpu with ime := true, request := { value? := none, isArmed := false } } }

/-- Call a restart vector. -/
def execRst (m : Machine σ) (v : UInt16) : Except Fault (Machine σ) :=
  if v.toNat < 0x40 ∧ v.toNat % 8 = 0 then .ok ((m.push m.cpu.regs.pc).goto v)
  else .error (.badVector v)

/-! ### System -/

/-- Stop until a joypad line falls. The code is only valid before a zero byte; before any other
byte it does nothing, and that byte is the next opcode. -/
def execStop (m : Machine σ) : Machine σ :=
  let pc := m.cpu.regs.pc
  let (next, m) := m.read pc
  if next = 0 then
    let m := m.goto (pc + 1)
    let (lines, m) := m.sample 0xFF00
    let m := { m with cpu := { m.cpu with stopped := true, stopLines := lines &&& 0x0F } }
    m.note .debug fun _ => "STOP at " ++ Hex.word0x (pc - 1)
  else
    m.note .debug fun _ =>
      "unknown opcode 0x10 " ++ Hex.byte0x next ++ " at " ++ Hex.word0x (pc - 1)

/-- Request a change of the interrupt master enable, replacing an earlier request. -/
def requestIme (m : Machine σ) (enable : Bool) : Machine σ :=
  { m with cpu := { m.cpu with request := { value? := some enable, isArmed := false } } }

/-- The diagnostic of a code that stands for no operation. -/
def unknownText (cpu : Cpu) (code : UInt8) : String :=
  let r := cpu.regs
  "unknown opcode " ++ Hex.byte0x code ++ " at " ++ Hex.word0x (r.pc - 1) ++ "; A=" ++
    Hex.byte r.a ++ " F=" ++ Hex.byte cpu.flags.toByte ++ " BC=" ++ Hex.word r.bc ++ " DE=" ++
    Hex.word r.de ++ " HL=" ++ Hex.word r.hl ++ " SP=" ++ Hex.word r.sp

/-! ### Operations -/

/-- Execute an operation of the first page. -/
def execBase (m : Machine σ) : BaseOp → Except Fault (Machine σ)
  | .nop => .ok m
  | .load dst src => do
    let (v, m) ← m.readOperand src
    m.writeOperand dst v
  | .loadWord s => m.execLoadWord s
  | .loadSpHl => .ok (m.mapRegs fun r => { r with sp := r.hl })
  | .loadHlSpOffset =>
    let (w, m) := m.execSpOffset
    .ok (m.mapRegs fun r => r.setHl w)
  | .storeSp => .ok m.execStoreSp
  | .inc o =>
    m.modifyOperand o fun v fl =>
      let (v, fl) := Arithmetic.inc m.cpu.rules v fl
      .ok (some v, fl)
  | .dec o =>
    m.modifyOperand o fun v fl =>
      let (v, fl) := Arithmetic.dec m.cpu.rules v fl
      .ok (some v, fl)
  | .incWord s => do
    let w ← m.wordReg s
    m.setWordReg s (w + 1)
  | .decWord s => do
    let w ← m.wordReg s
    m.setWordReg s (w - 1)
  | .byteOp op src => do
    let (v, m) ← m.readOperand src
    return m.setResult (op.apply m.cpu.rules src m.cpu.regs.a v m.cpu.flags)
  | .addHl s => m.execAddHl s
  | .addSpOffset =>
    let (w, m) := m.execSpOffset
    .ok (m.mapRegs fun r => { r with sp := w })
  | .push s => m.execPush s
  | .pop s => m.execPop s
  | .daa => .ok (m.setResult (Arithmetic.daa m.cpu.regs.a m.cpu.flags))
  | .cpl =>
    .ok (m.setResult (~~~m.cpu.regs.a, { m.cpu.flags with subtract := true, halfCarry := true }))
  | .ccf =>
    let fl := m.cpu.flags
    .ok (m.setFlags { fl with subtract := false, halfCarry := false, carry := !fl.carry })
  | .scf =>
    .ok (m.setFlags { m.cpu.flags with subtract := false, halfCarry := false, carry := true })
  | .halt => .ok { m with cpu := { m.cpu with halted := true } }
  | .stop => .ok m.execStop
  | .di => .ok (m.requestIme false)
  | .ei => .ok (m.requestIme true)
  | .jump c => .ok (m.execJump c)
  | .jumpHl => .ok (m.goto m.cpu.regs.hl)
  | .jumpRelative c => .ok (m.execJumpRelative c)
  | .call c => .ok (m.execCall c)
  | .ret c => .ok (m.execRet c)
  | .reti => .ok m.execReti
  | .rst v => m.execRst v
  | .rotateA k => .ok (m.setResult (k.apply m.cpu.regs.a false m.cpu.flags))
  | .bitPage => .error .strayBitPage
  | .unknown code =>
    let cpu := m.cpu
    .ok (m.note .debug fun _ => unknownText cpu code)

/-- Execute an operation of the second page. -/
def execBit (m : Machine σ) (op : BitOp) : Except Fault (Machine σ) :=
  m.modifyOperand op.operand op.apply

end DotMatrix.Machine
