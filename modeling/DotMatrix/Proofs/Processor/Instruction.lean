import DotMatrix.Processor.Step
import DotMatrix.Proofs.Processor.Execute

/-!
# What a step does

A step fetches and executes an instruction, or it does something else: it enters the handler of an
interrupt, or it waits.

* `m.Completes opcode operands data sample m'` collects what is known of an instruction from the
  fetch of its opcode to the record of its cycles. `Machine.exists_completes` proves that every
  instruction is completed.
* `Machine.fetched?` is the opcode that the next step fetches, if it fetches one.
* `Machine.turn_cases` says how a step is decided, `Polls` which accesses that takes.
-/

namespace DotMatrix

/-- Carry a request on: what it makes of the interrupt master enable, and the request then. -/
def ImeRequest.settle (request : ImeRequest) (ime : Bool) : Bool × ImeRequest :=
  match request.value? with
  | Option.none => (ime, request)
  | some e => if request.isArmed then (e, none) else (ime, { request with isArmed := true })

/-- A trace of `n` polls of the interrupt lines: of the enable byte, then of the request byte. -/
def Polls : Nat → List Access → Prop
  | 0, l => l = []
  | n + 1, l =>
    ∃ v w rest, l = .read Interrupt.enableAddress v :: .read Interrupt.requestAddress w :: rest ∧
      Polls n rest

theorem Polls.append {n k : Nat} {l l' : List Access} (h : Polls n l) (h' : Polls k l') :
    Polls (n + k) (l ++ l') := by
  induction n generalizing l with
  | zero =>
    obtain rfl : l = [] := h
    rwa [Nat.zero_add]
  | succ n ih =>
    obtain ⟨v, w, rest, rfl, hr⟩ := h
    rw [Nat.add_right_comm]
    exact ⟨v, w, rest ++ l', rfl, ih hr⟩

/-- A poll makes two accesses. -/
theorem Polls.length_eq {n : Nat} {l : List Access} (h : Polls n l) : l.length = 2 * n := by
  induction n generalizing l with
  | zero =>
    obtain rfl : l = [] := h
    rfl
  | succ n ih =>
    obtain ⟨v, w, rest, rfl, hr⟩ := h
    rw [List.length_cons, List.length_cons, ih hr]
    omega

namespace Machine

variable {σ : Type} [Bus σ]

/-! ### Instructions -/

/-- The opcode at the program counter, and the machine that executes its operation. -/
def fetchOpcode (m : Machine σ) : UInt8 × Machine σ :=
  let pc := m.cpu.regs.pc
  let m := { m with cpu := { m.cpu with accesses := 0 } }
  let (opcode, m) := m.sample pc
  let m := m.goto (pc + 1)
  let m := m.note .trace fun _ => "fetch " ++ Hex.byte0x opcode ++ " at " ++ Hex.word0x pc
  (opcode, m.setFlags (.ofByte m.cpu.regs.f))

/-- Write the flags back, record the instruction and its cycles, and carry a request on. -/
def complete (m : Machine σ) (pc : UInt16) (code : Code) : Nat × Machine σ :=
  let m := m.mapRegs fun r => { r with f := m.cpu.flags.toByte }
  let cycles := m.cpu.accesses * 4 + 4
  let last : Fetched := ⟨pc, code, cycles⟩
  let m := m.note .trace fun _ => last.text
  let m := { m with cpu := { m.cpu with last := last } }
  (cycles, m.settleRequest)

theorem executeNext_eq (m : Machine σ) :
    m.executeNext = do
      let (code, m') ← m.fetchOpcode.2.dispatch m.fetchOpcode.1
      return m'.complete m.cpu.regs.pc code := rfl

section complete

omit [Bus σ]

variable (m : Machine σ) (pc : UInt16) (code : Code)

theorem settleRequest_eq : m.settleRequest =
    { m with cpu :=
      { m.cpu with
        ime := (m.cpu.request.settle m.cpu.ime).1
        request := (m.cpu.request.settle m.cpu.ime).2 } } := by
  obtain ⟨cpu, bus, journal⟩ := m
  cases cpu with
  | mk regs flags ime halted stopped stopLines request =>
    obtain ⟨_ | e, _ | _⟩ := request <;> rfl

/-- The processor after an instruction. -/
theorem cpu_complete : (m.complete pc code).2.cpu =
    { m.cpu with
      regs := { m.cpu.regs with f := m.cpu.flags.toByte }
      ime := (m.cpu.request.settle m.cpu.ime).1
      request := (m.cpu.request.settle m.cpu.ime).2
      last := ⟨pc, code, m.cpu.accesses * 4 + 4⟩ } := by
  unfold complete
  dsimp only
  rw [settleRequest_eq]
  rfl

theorem bus_complete : (m.complete pc code).2.bus = m.bus := by
  unfold complete
  dsimp only
  rw [settleRequest_eq]
  rfl

end complete

/-- Every opcode is dispatched, to an operation of the second page if it is CB. -/
theorem exists_dispatch {m : Machine σ} {r : Registers}
    (hr : m.cpu.regs = { r with pc := r.pc + 1 }) (opcode : UInt8) :
    ∃ code m' operands data sample, m.dispatch opcode = .ok (code, m') ∧
      m.Executes (BaseOp.decode opcode) r operands data sample m' ∧
      code.Spells opcode operands ∧ data.length = code.dataSize (code.isTaken m.cpu.flags) := by
  have hcb := BaseOp.decode_eq_bitPage_iff opcode
  have hv := BaseOp.isValid_decode opcode
  by_cases hb : BaseOp.decode opcode = .bitPage
  · -- The second byte is the only operand; the operation of the second page fetches nothing.
    have ha := m.advances_fetchByte
    obtain ⟨m', data, hm, ha', hd⟩ :=
      exists_execBit m.fetchByte.2 (BitOp.isValid_decode m.fetchByte.1)
    refine ⟨.bit m.fetchByte.1, m', [m.fetchByte.1], data, [], ?_, ?_, ⟨hcb.1 hb, rfl⟩, hd⟩
    · simp only [dispatch, hb, hm, bind, Except.bind, pure, Except.pure]
    · have ht := ha.trans ha' (.inl rfl)
      rw [hb]
      exact .of_proceeds rfl hr ht.toProceeds rfl (fun h => absurd rfl h) (ht.pc_from_opcode hr)
  · obtain ⟨m', operands, data, sample, hm, he⟩ := exists_executes hr hv hb
    refine ⟨.base opcode, m', operands, data, sample, ?_, he, ⟨mt hcb.2 hb, rfl⟩, he.dataSize hb⟩
    unfold dispatch
    split
    · next h => exact absurd h hb
    · simp only [hm, bind, Except.bind, pure, Except.pure]

/-- What an instruction does, from the fetch of its opcode to the record of its cycles. -/
structure Completes (m : Machine σ) (opcode : UInt8) (operands : List UInt8)
    (data sample : List Access) (m' : Machine σ) : Prop where
  performs :
    Performs m.bus (fetches m.cpu.regs.pc (opcode :: operands) ++ data ++ sample) m'.bus
  size : (opcode :: operands).length = Opcode.size opcode
  spells : m'.cpu.last.code.Spells opcode operands
  dataSize : data.length =
    m'.cpu.last.code.dataSize (m'.cpu.last.code.isTaken (.ofByte m.cpu.regs.f))
  pc : m'.cpu.last.pc = m.cpu.regs.pc
  cycles : m'.cpu.last.cycles = 4 * ((opcode :: operands).length + data.length)
  leads : (BaseOp.decode opcode).Leads m.cpu.regs (.ofByte m.cpu.regs.f) operands data
    m'.cpu.regs.pc
  samples : (BaseOp.decode opcode).Samples operands sample
  enable : (m'.cpu.ime, m'.cpu.request) =
    ((BaseOp.decode opcode).enable m.cpu.ime m.cpu.request).2.settle
      ((BaseOp.decode opcode).enable m.cpu.ime m.cpu.request).1
  running : BaseOp.decode opcode ≠ .halt → BaseOp.decode opcode ≠ .stop →
    m'.cpu.halted = m.cpu.halted ∧ m'.cpu.stopped = m.cpu.stopped

/-- The accesses to data of an instruction of the first page. -/
theorem Completes.length_data {m m' : Machine σ} {opcode : UInt8} {operands : List UInt8}
    {data sample : List Access} (h : m.Completes opcode operands data sample m')
    (hb : BaseOp.decode opcode ≠ .bitPage) :
    data.length =
      (BaseOp.decode opcode).dataSize ((BaseOp.decode opcode).isTaken (.ofByte m.cpu.regs.f)) := by
  have hs := h.spells
  rw [h.dataSize]
  cases hc : m'.cpu.last.code with
  | base b =>
    rw [hc] at hs
    obtain ⟨-, rfl⟩ := hs
    rfl
  | bit b =>
    rw [hc] at hs
    exact absurd ((BaseOp.decode_eq_bitPage_iff opcode).2 hs.1) hb

/-- Every instruction is completed, and gives the cycles that it records. -/
theorem exists_completes (m : Machine σ) :
    ∃ m' operands data sample, m.executeNext = .ok (m'.cpu.last.cycles, m') ∧
      m.Completes (Bus.read m.bus m.cpu.regs.pc).1 operands data sample m' := by
  have hr : m.fetchOpcode.2.cpu.regs = { m.cpu.regs with pc := m.cpu.regs.pc + 1 } := rfl
  obtain ⟨code, m₁, operands, data, sample, hm, he, hs, hd⟩ :=
    exists_dispatch hr m.fetchOpcode.1
  have hc := m₁.cpu_complete m.cpu.regs.pc code
  refine ⟨(m₁.complete m.cpu.regs.pc code).2, operands, data, sample, ?_, ?_⟩
  · rw [executeNext_eq, hc]
    simp only [hm, bind, Except.bind, pure, Except.pure]
    rfl
  · exact
      { performs := by
          rw [bus_complete]
          exact .read _ he.performs
        size := by
          rw [List.length_cons, he.size, Opcode.size, Nat.add_comm]
          rfl
        spells := by
          rw [hc]
          exact hs
        dataSize := by
          rw [hc]
          exact hd
        pc := by rw [hc]
        cycles := by
          have hn : m₁.cpu.accesses = 0 + (operands.length + data.length) := he.counted
          rw [hc, List.length_cons]
          show m₁.cpu.accesses * 4 + 4 = _
          omega
        leads := by
          rw [hc]
          exact he.leads
        samples := he.samples
        enable := by
          have hn := he.enable
          rw [Prod.mk.injEq] at hn
          rw [hc, hn.1, hn.2]
          rfl
        running := fun h₁ h₂ => by
          rw [hc]
          exact he.running h₁ h₂ }

/-! ### Turns -/

theorem performs_pollInterrupts (m : Machine σ) :
    ∃ polls, Polls 1 polls ∧ Performs m.bus polls m.pollInterrupts.2.bus :=
  ⟨_, ⟨_, _, _, rfl, rfl⟩, .read _ (.one_read _ _)⟩

/-- How a step is decided. -/
inductive Decides (m : Machine σ) : Turn × Machine σ → Prop
  | sampleLines (stopped : m.cpu.stopped = true) : m.Decides (.sampleLines, m)
  | enterHandler (i : Nat) (m' : Machine σ) (polls : List Access) (running : m.cpu.stopped = false)
      (enabled : m.cpu.ime = true) (serves : m.firstInterrupt.1 = some i) (cpu : m'.cpu = m.cpu)
      (performs : Performs m.bus polls m'.bus) : m.Decides (.enterHandler i, m')
  | wait (m' : Machine σ) (polls : List Access) (running : m.cpu.stopped = false)
      (halted : m.cpu.halted = true) (cpu : m'.cpu = m.cpu)
      (performs : Performs m.bus polls m'.bus) : m.Decides (.wait, m')
  | execute (m' : Machine σ) (polls : List Access) (running : m.cpu.stopped = false)
      (serves : m.firstInterrupt.1 = none) (cpu : m'.cpu = { m.cpu with halted := false })
      (polled : Polls (m.cpu.ime.toNat + m.cpu.halted.toNat) polls)
      (performs : Performs m.bus polls m'.bus) : m.Decides (.execute, m')

/-- Looking for an interrupt polls the lines if interrupts are enabled. -/
theorem firstInterrupt_spec (m : Machine σ) :
    ∃ polls, Polls m.cpu.ime.toNat polls ∧ Performs m.bus polls m.firstInterrupt.2.bus ∧
      m.firstInterrupt.2.cpu = m.cpu ∧ (m.cpu.ime = false → m.firstInterrupt.1 = none) := by
  unfold firstInterrupt
  cases hi : m.cpu.ime with
  | false => exact ⟨[], rfl, .nil _, rfl, fun _ => rfl⟩
  | true =>
    obtain ⟨polls, hp, h⟩ := m.performs_pollInterrupts
    exact ⟨polls, hp, h, rfl, nofun⟩

theorem decides_turn (m : Machine σ) : m.Decides m.turn := by
  obtain ⟨polls, hp, h, hc, hn⟩ := m.firstInterrupt_spec
  unfold turn
  split
  · next hs => exact .sampleLines hs
  · next hs =>
    have hs : m.cpu.stopped = false := Bool.eq_false_iff.2 hs
    split
    · next i m₁ hf =>
      rw [hf] at h hc hn
      have hi : m.cpu.ime = true := by
        rw [← Bool.not_eq_false]
        intro hi
        cases hn hi
      exact .enterHandler i m₁ polls hs hi (by rw [hf]) hc h
    · next m₁ hf =>
      rw [hf] at h hc
      have hc : m₁.cpu = m.cpu := hc
      have h1 : m.firstInterrupt.1 = none := by rw [hf]
      rw [hc]
      split
      · next hh =>
        -- A halted processor polls once more, whether interrupts are enabled or not.
        obtain ⟨polls', hp', h'⟩ := m₁.performs_pollInterrupts
        have hcpu : m₁.pollInterrupts.2.cpu = m.cpu := hc
        show m.Decides (if m₁.pollInterrupts.1 = 0 then _ else _)
        split
        · exact .wait _ _ hs hh hcpu (h.append h')
        · have hw : ({ m₁.pollInterrupts.2.cpu with halted := false } : Cpu) =
              { m.cpu with halted := false } := by rw [hcpu]
          refine .execute _ (polls ++ polls') hs h1 hw ?_ (h.append h')
          rw [hh]
          exact hp.append hp'
      · next hh =>
        have hh : m.cpu.halted = false := Bool.eq_false_iff.2 hh
        refine .execute m₁ polls hs h1 ?_ ?_ h
        · rw [hc, ← hh]
        · rw [hh]
          exact hp

/-- The opcode that the next step fetches, if it fetches one. -/
def fetched? (m : Machine σ) : Option UInt8 :=
  match m.turn with
  | (.execute, m) => some (Bus.read m.bus m.cpu.regs.pc).1
  | _ => none

theorem cpu_sampleLines (m : Machine σ) :
    m.sampleLines.cpu = { m.cpu with stopped := m.sampleLines.cpu.stopped } := by
  unfold sampleLines
  dsimp only
  split <;> rfl

/-- What a step does, with its cycles. -/
inductive Takes (m : Machine σ) : Nat → Machine σ → Prop
  | sampleLines (m' : Machine σ) (turn : m.turn.1 = .sampleLines) (fetched : m.fetched? = none)
      (stopped : m.cpu.stopped = true)
      (cpu : m'.cpu = { m.cpu with stopped := m'.cpu.stopped }) : m.Takes 4 m'
  | enterHandler (i : Nat) (m' : Machine σ) (turn : m.turn.1 = .enterHandler i)
      (fetched : m.fetched? = none) (running : m.cpu.stopped = false)
      (serves : m.firstInterrupt.1 = some i)
      (cpu : m'.cpu =
        { m.cpu with
          ime := false
          halted := false
          regs := { m.cpu.regs with sp := m.cpu.regs.sp - 1 - 1, pc := Interrupt.vector i } }) :
      m.Takes 20 m'
  | wait (m' : Machine σ) (turn : m.turn.1 = .wait) (fetched : m.fetched? = none)
      (halted : m.cpu.halted = true) (cpu : m'.cpu = m.cpu) : m.Takes 4 m'
  | fetch (opcode : UInt8) (m₁ m' : Machine σ) (polls : List Access) (operands : List UInt8)
      (data sample : List Access) (fetched : m.fetched? = some opcode)
      (serves : m.firstInterrupt.1 = none) (running : m.cpu.stopped = false)
      (cpu : m₁.cpu = { m.cpu with halted := false })
      (polled : Polls (m.cpu.ime.toNat + m.cpu.halted.toNat) polls)
      (performs : Performs m.bus polls m₁.bus)
      (completes : m₁.Completes opcode operands data sample m') : m.Takes m'.cpu.last.cycles m'

/-- A step is always taken. -/
theorem exists_takes (m : Machine σ) : ∃ n m', m.step = .ok (n, m') ∧ m.Takes n m' := by
  have hd := m.decides_turn
  unfold step
  generalize ht : m.turn = t at hd
  have h1 : m.turn.1 = t.1 := by rw [ht]
  cases hd with
  | sampleLines hs =>
    have hf : m.fetched? = none := by rw [fetched?, ht]
    exact ⟨_, _, rfl, .sampleLines _ h1 hf hs m.cpu_sampleLines⟩
  | enterHandler i m₁ polls hr he hi hc hp =>
    have hf : m.fetched? = none := by rw [fetched?, ht]
    refine ⟨_, _, rfl, .enterHandler i _ h1 hf hr hi ?_⟩
    rw [← hc]
    rfl
  | wait m₁ polls hr hh hc hp =>
    have hf : m.fetched? = none := by rw [fetched?, ht]
    exact ⟨_, _, rfl, .wait _ h1 hf hh hc⟩
  | execute m₁ polls hr hi hc hl hp =>
    have hf : m.fetched? = some (Bus.read m₁.bus m₁.cpu.regs.pc).1 := by rw [fetched?, ht]
    obtain ⟨m', operands, data, sample, hm, hcomp⟩ := m₁.exists_completes
    exact ⟨_, m', hm, .fetch _ m₁ m' polls operands data sample hf hi hr hc hl hp hcomp⟩

/-- What a step does that fetches an opcode. -/
theorem Takes.of_fetched {m m' : Machine σ} {n : Nat} {opcode : UInt8} (h : m.Takes n m')
    (hf : m.fetched? = some opcode) :
    ∃ (m₁ : Machine σ) (polls : List Access) (operands : List UInt8) (data sample : List Access),
      n = m'.cpu.last.cycles ∧ m.firstInterrupt.1 = none ∧ m.cpu.stopped = false ∧
      m₁.cpu = { m.cpu with halted := false } ∧
      Polls (m.cpu.ime.toNat + m.cpu.halted.toNat) polls ∧ Performs m.bus polls m₁.bus ∧
      m₁.Completes opcode operands data sample m' := by
  cases h with
  | sampleLines _ _ fetched | enterHandler _ _ _ fetched | wait _ _ fetched =>
    rw [fetched] at hf
    cases hf
  | fetch opcode' m₁ m' polls operands data sample fetched serves running cpu polled performs
      completes =>
    rw [fetched] at hf
    cases hf
    exact ⟨m₁, polls, operands, data, sample, rfl, serves, running, cpu, polled, performs,
      completes⟩

end Machine

end DotMatrix
