import DotMatrix.Processor.Execution
import DotMatrix.Processor.Interrupt

/-!
# Steps of a machine

`Machine.turn` decides what a step does, in order of precedence: a stopped processor samples the
joypad lines, a pending interrupt is entered, a halted processor waits, and otherwise the next
instruction is executed. `Machine.step` does it and gives its cost in cycles; an instruction
(`Machine.executeNext`) costs four cycles and four more for each counted access.

`Machine.run` takes steps in a row and adds up their cycles.
-/

namespace DotMatrix.Machine

variable {σ : Type} [Bus σ]

/-- Sample the joypad lines while stopped; a line that was high on entry and is low now ends the
stop. -/
def sampleLines (m : Machine σ) : Machine σ :=
  let (p1, m) := m.sample 0xFF00
  if m.cpu.stopLines &&& ~~~p1 &&& 0x0F = 0 then m
  else
    let m := m.note .debug fun _ => "leaving STOP, P1=" ++ Hex.byte0x p1
    { m with cpu := { m.cpu with stopped := false } }

/-- The operation of a fetched opcode, executed, and the code as it is recorded. -/
def dispatch (m : Machine σ) (opcode : UInt8) : Except Fault (Code × Machine σ) :=
  match BaseOp.decode opcode with
  | .bitPage =>
    let (b, m) := m.fetchByte
    do return (.bit b, ← m.execBit (BitOp.decode b))
  | op => do return (.base opcode, ← m.execBase op)

/-- Fetch the opcode at the program counter, execute its operation, and write the flags back. -/
def executeNext (m : Machine σ) : Except Fault (Nat × Machine σ) := do
  let pc := m.cpu.regs.pc
  let m := { m with cpu := { m.cpu with accesses := 0 } }
  let (opcode, m) := m.sample pc
  let m := m.goto (pc + 1)
  let m := m.note .trace fun _ => "fetch " ++ Hex.byte0x opcode ++ " at " ++ Hex.word0x pc
  let m := m.setFlags (.ofByte m.cpu.regs.f)
  let (code, m) ← m.dispatch opcode
  let m := m.mapRegs fun r => { r with f := m.cpu.flags.toByte }
  let cycles := m.cpu.accesses * 4 + 4
  let last : Fetched := ⟨pc, code, cycles⟩
  let m := m.note .trace fun _ => last.text
  let m := { m with cpu := { m.cpu with last := last } }
  return (cycles, m.settleRequest)

/-- What a step does. -/
inductive Turn
  /-- Sample the joypad lines while stopped. -/
  | sampleLines
  /-- Enter the handler of a line. -/
  | enterHandler (line : Nat)
  /-- Wait while halted. -/
  | wait
  | execute
  deriving DecidableEq, Repr

/-- Decide what a step does. Deciding polls the interrupts, and wakes a halted processor when one is
pending. -/
def turn (m : Machine σ) : Turn × Machine σ :=
  if m.cpu.stopped then (.sampleLines, m)
  else
    match m.firstInterrupt with
    | (some i, m) => (.enterHandler i, m)
    | (none, m) =>
      if m.cpu.halted then
        let (pending, m) := m.pollInterrupts
        if pending = 0 then (.wait, m)
        else (.execute, { m with cpu := { m.cpu with halted := false } })
      else (.execute, m)

/-- One step and its cycles. -/
def step (m : Machine σ) : Except Fault (Nat × Machine σ) :=
  match m.turn with
  | (.sampleLines, m) => .ok (4, m.sampleLines)
  | (.enterHandler i, m) => .ok (20, m.enterHandler i)
  | (.wait, m) => .ok (4, m)
  | (.execute, m) => m.executeNext

/-- Take `n` steps; the sum of their cycles and `total`. -/
def runFrom : Nat → Nat → Machine σ → Except Fault (Nat × Machine σ)
  | 0, total, m => .ok (total, m)
  | n + 1, total, m => do
    let (cycles, m) ← m.step
    runFrom n (total + cycles) m

/-- Take `n` steps; the sum of their cycles. -/
def run (n : Nat) (m : Machine σ) : Except Fault (Nat × Machine σ) := runFrom n 0 m

end DotMatrix.Machine
