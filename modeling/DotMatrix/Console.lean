import DotMatrix.Cartridge.Basic
import DotMatrix.Lcd
import DotMatrix.Processor.PowerOn
import DotMatrix.Processor.Step

/-!
# The console

A console is a session: a machine with a cartridge on its board, the LCD, and a counter of cycles
that paces frames.

* `Console.start` loads a ROM file and brings the processor up.
* `Console.step` takes a step of the machine, then of the LCD, and counts the cycles. The counter
  has 32 bits; leaving them is a fault.
* `Console.stepFrame` takes steps until a frame's worth of cycles has been counted, and carries the
  rest over into the next frame.
-/

namespace DotMatrix

/-- The cycles of a frame: 154 lines of 456 dots. -/
def frameCycles : UInt32 := 70224

/-- How a session is set up. -/
structure Options where
  rules : FlagRules := {}
  cyclesPerFrame : UInt32 := frameCycles
  /-- Start in the power-on state, and not from zeros. -/
  powerOn : Bool := true
  deriving DecidableEq, Repr

/-- A session. -/
structure Console where
  machine : Machine Board
  lcd : Lcd := {}
  cartridge : Cartridge
  options : Options
  /-- The cycles counted since the frame began. -/
  cycle : UInt32 := 0

namespace Console

/-! ### Starting -/

/-- The machine that a loaded board starts with. -/
def startMachine (options : Options) (b : Board) (j : Journal) : Machine Board :=
  let m : Machine Board := { cpu := { rules := options.rules }, bus := b, journal := j }
  if options.powerOn then m.powerOn else m.mapRegs fun r => { r with pc := 0x0100, sp := 0xFFFE }

/-- What starting a session leaves behind when it fails: the error, the disk and the journal. -/
structure StartFailure where
  error : CartridgeError
  disk : Disk
  journal : Journal

/-- Load the ROM file at a path and bring the processor up. -/
def start (path : String) (options : Options) (d : Disk) (j : Journal) :
    Except StartFailure Console :=
  let j := j.note .debug fun _ => "loading ROM from '" ++ path ++ "'"
  let r := Cartridge.ofFile d path
  let j := j.noteAll fun _ => Cartridge.ofFileNotes r
  match r with
  | .error e => .error ⟨e, d, j⟩
  | .ok c =>
    let r := c.load { disk := d }
    let j := j.noteAll fun _ => c.loadNotes r
    match r with
    | (.error e, b) => .error ⟨e, b.disk, j⟩
    | (.ok (), b) =>
      let m := startMachine options b j
      let m := m.note .info fun _ => "loaded '" ++ c.header.title ++ "'"
      .ok { machine := m, cartridge := c, options := options }

/-! ### Running -/

/-- Add cycles to the counter. -/
def count (c : UInt32) (n : Nat) : Except Fault UInt32 :=
  if c.toNat + n < UInt32.size then .ok (UInt32.ofNat (c.toNat + n)) else .error .counterOverflow

/-- A step of the machine and of the LCD, and its cycles. -/
def step (s : Console) : Except Fault (Nat × Console) := do
  let (cycles, m) ← s.machine.step
  let (lcd, board) := s.lcd.step cycles m.bus
  let cycle ← count s.cycle cycles
  return (cycles, { s with machine := { m with bus := board }, lcd := lcd, cycle := cycle })

/-- Take `n` steps; the sum of their cycles and `total`. -/
def runFrom : Nat → Nat → Console → Except Fault (Nat × Console)
  | 0, total, s => .ok (total, s)
  | n + 1, total, s => do
    let (cycles, s) ← s.step
    runFrom n (total + cycles) s

/-- Take `n` steps; the sum of their cycles. -/
def run (n : Nat) (s : Console) : Except Fault (Nat × Console) := runFrom n 0 s

/-- Take one frame's cycles off the counter, or all it has. -/
def resetCycle (s : Console) : Console :=
  { s with
    cycle :=
      if s.options.cyclesPerFrame ≤ s.cycle then s.cycle - s.options.cyclesPerFrame else 0 }

/-- Take steps until the counter reaches the cycles of a frame, at most `fuel` of them. -/
def fillFrame : Nat → Console → Except Fault Console
  | 0, s => .ok s
  | fuel + 1, s =>
    if s.cycle < s.options.cyclesPerFrame then do
      let (_, s) ← s.step
      fillFrame fuel s
    else .ok s

/-- Run for a frame. Every step counts some cycles, so a frame has no more steps than cycles. -/
def stepFrame (s : Console) : Except Fault Console := do
  return (← fillFrame s.options.cyclesPerFrame.toNat s).resetCycle

/-- Run for `n` frames. -/
def runFrames : Nat → Console → Except Fault Console
  | 0, s => .ok s
  | n + 1, s => do
    let s ← s.stepFrame
    runFrames n s

/-- Bring the save file up to date. -/
def flush (s : Console) : Except MemoryError Console := do
  return { s with machine := { s.machine with bus := ← s.machine.bus.flush } }

/-- Everything in the session as diagnostics. -/
def report (s : Console) : List Entry :=
  s.machine.cpu.report ++ s.lcd.report ++ s.cartridge.report ++
    s.machine.bus.map.report s.machine.bus.disk

end Console

end DotMatrix
