import DotMatrix.Proofs.Processor.Instruction

/-!
# From the fetch of a code to its record

A step that fetches a code executes the operation of the code and records it. So what is known of
the operation is known of the step.

* `Machine.code?` is the code that the next step fetches, if it fetches one: an opcode, or CB and
  the byte after it. `Machine.execCode` executes the operation of a code.
* `m.Begins code m₀` says that a step of `m` fetches the code, and that `m₀` executes its operation.
* `m.StepsBy bytes data n m'` says which accesses a step makes on a traced bus, and what it costs.
  `Begins.exists_step` and `Begins.exists_stepsBy` take an operation to the step.
-/

namespace DotMatrix

namespace Code

/-- The bytes that name an operation. -/
def bytes : Code → List UInt8
  | base b => [b]
  | bit b => [0xCB, b]

/-- The operation that an opcode stands for; CB opens the second page. -/
def operation : Code → BaseOp
  | base b => BaseOp.decode b
  | bit _ => .bitPage

theorem isValid_operation (code : Code) : code.operation.isValid = true := by
  cases code with
  | base b => exact BaseOp.isValid_decode b
  | bit _ => rfl

end Code

namespace Machine

variable {σ : Type} [Bus σ]

/-- Fetch a code, and leave the machine that executes its operation. -/
def fetchCode (m : Machine σ) : Code × Machine σ :=
  let (opcode, m) := m.fetchOpcode
  if opcode = 0xCB then
    let (b, m) := m.fetchByte
    (.bit b, m)
  else (.base opcode, m)

/-- The code that the next step fetches, if it fetches one. -/
def code? (m : Machine σ) : Option Code :=
  match m.turn with
  | (.execute, m) => some m.fetchCode.1
  | _ => none

/-- Execute the operation of a code. -/
def execCode (m : Machine σ) : Code → Except Fault (Machine σ)
  | .base b => m.execBase (BaseOp.decode b)
  | .bit b => m.execBit (BitOp.decode b)

theorem execCode_of_operation {code : Code} {op : BaseOp} (h : code.operation = op)
    (hb : op ≠ .bitPage) (m : Machine σ) : m.execCode code = m.execBase op := by
  cases code with
  | base b => exact congrArg m.execBase h
  | bit _ => exact absurd h.symm hb

/-- Only a code of the first page stands for an operation other than the second page. -/
theorem length_bytes_of_operation {code : Code} {op : BaseOp} (h : code.operation = op)
    (hb : op ≠ .bitPage) : code.bytes.length = 1 := by
  cases code with
  | base b => rfl
  | bit _ => exact absurd h.symm hb

theorem fetchCode_of_cb {m : Machine σ} (h : m.fetchOpcode.1 = 0xCB) :
    m.fetchCode = (.bit m.fetchOpcode.2.fetchByte.1, m.fetchOpcode.2.fetchByte.2) :=
  if_pos h

theorem fetchCode_of_ne {m : Machine σ} (h : m.fetchOpcode.1 ≠ 0xCB) :
    m.fetchCode = (.base m.fetchOpcode.1, m.fetchOpcode.2) :=
  if_neg h

/-- An instruction is a code that is fetched, executed and completed. -/
theorem executeNext_eq_execCode (m : Machine σ) :
    m.executeNext = do
      let m₁ ← m.fetchCode.2.execCode m.fetchCode.1
      return m₁.complete m.cpu.regs.pc m.fetchCode.1 := by
  have hb := BaseOp.decode_eq_bitPage_iff m.fetchOpcode.1
  rw [executeNext_eq]
  unfold dispatch
  by_cases hc : m.fetchOpcode.1 = 0xCB
  · rw [fetchCode_of_cb hc, hb.2 hc]
    dsimp only [execCode]
    cases m.fetchOpcode.2.fetchByte.2.execBit _ <;> rfl
  · rw [fetchCode_of_ne hc]
    split
    · next hd => exact absurd (hb.1 hd) hc
    · dsimp only [execCode]
      cases m.fetchOpcode.2.execBase _ <;> rfl

/-- A step of `m` fetches a code, and `m₀` is the machine that executes its operation. -/
structure Begins (m : Machine σ) (code : Code) (m₀ : Machine σ) : Prop where
  running : m.cpu.stopped = false
  cpu : m₀.cpu =
    { m.cpu with
      regs := { m.cpu.regs with pc := m.cpu.regs.pc + UInt16.ofNat code.bytes.length }
      flags := .ofByte m.cpu.regs.f
      halted := false
      accesses := code.bytes.length - 1 }
  performs : ∃ polls, Polls (m.cpu.ime.toNat + m.cpu.halted.toNat) polls ∧
    Performs m.bus (polls ++ fetches m.cpu.regs.pc code.bytes) m₀.bus
  step : m.step = do
    let m₁ ← m₀.execCode code
    return m₁.complete m.cpu.regs.pc code
  decoded : ∀ b, code = .base b → BaseOp.decode b ≠ .bitPage

theorem fetchCode_spec (m : Machine σ) :
    m.fetchCode.2.cpu =
        { m.cpu with
          regs := { m.cpu.regs with pc := m.cpu.regs.pc + UInt16.ofNat m.fetchCode.1.bytes.length }
          flags := .ofByte m.cpu.regs.f
          accesses := m.fetchCode.1.bytes.length - 1 } ∧
      Performs m.bus (fetches m.cpu.regs.pc m.fetchCode.1.bytes) m.fetchCode.2.bus ∧
      ∀ b, m.fetchCode.1 = .base b → BaseOp.decode b ≠ .bitPage := by
  have hp : Performs m.bus [.read m.cpu.regs.pc m.fetchOpcode.1] m.fetchOpcode.2.bus :=
    Performs.one_read ..
  by_cases hc : m.fetchOpcode.1 = 0xCB
  · rw [fetchCode_of_cb hc]
    rw [hc] at hp
    refine ⟨?_, hp.append (.one_read ..), nofun⟩
    have hpc : m.cpu.regs.pc + 2 = m.cpu.regs.pc + 1 + 1 := by
      rw [UInt16.add_assoc]
      rfl
    show _ = { m.cpu with
      regs := { m.cpu.regs with pc := m.cpu.regs.pc + 2 }
      flags := .ofByte m.cpu.regs.f
      accesses := 1 }
    rw [hpc]
    rfl
  · rw [fetchCode_of_ne hc]
    refine ⟨rfl, hp, ?_⟩
    rintro b ⟨⟩
    exact mt (BaseOp.decode_eq_bitPage_iff _).1 hc

variable {m m₀ m₁ : Machine σ} {code : Code} {operands : List UInt8} {data : List Access}

theorem begins_of_turn {m₁ : Machine σ} (ht : m.turn = (.execute, m₁)) :
    m.Begins m₁.fetchCode.1 m₁.fetchCode.2 := by
  have hd := m.decides_turn
  rw [ht] at hd
  cases hd with
  | execute _ polls running serves cpu polled performs =>
    obtain ⟨hc, hp, hb⟩ := m₁.fetchCode_spec
    have hr : m₁.cpu.regs = m.cpu.regs := by rw [cpu]
    rw [hr] at hc hp
    refine ⟨running, ?_, ⟨polls, polled, performs.append hp⟩, ?_, hb⟩
    · rw [hc, cpu]
    · rw [step, ht, ← hr]
      exact m₁.executeNext_eq_execCode

theorem turn_of_code (h : m.code? = some code) :
    ∃ m₁, m.turn = (.execute, m₁) ∧ m₁.fetchCode.1 = code := by
  unfold code? at h
  split at h
  · next m₁ ht => exact ⟨m₁, ht, Option.some.inj h⟩
  · cases h

/-- A step that fetches no code fetches no opcode. -/
theorem fetched?_of_code? (h : m.code? = none) : m.fetched? = none := by
  unfold code? at h
  unfold fetched?
  generalize m.turn = p at h ⊢
  obtain ⟨turn, m₁⟩ := p
  cases turn with
  | execute => cases h
  | _ => rfl

theorem exists_begins (h : m.code? = some code) : ∃ m₀, m.Begins code m₀ := by
  obtain ⟨m₁, ht, rfl⟩ := turn_of_code h
  exact ⟨_, begins_of_turn ht⟩

namespace Begins

/-- The step that completes an operation. -/
theorem exists_step (h : m.Begins code m₀) (he : m₀.execCode code = .ok m₁) :
    ∃ m', m.step = .ok (m₁.cpu.accesses * 4 + 4, m') ∧ m'.bus = m₁.bus ∧
      m'.cpu =
        { m₁.cpu with
          regs := { m₁.cpu.regs with f := m₁.cpu.flags.toByte }
          ime := (m₁.cpu.request.settle m₁.cpu.ime).1
          request := (m₁.cpu.request.settle m₁.cpu.ime).2
          last := ⟨m.cpu.regs.pc, code, m₁.cpu.accesses * 4 + 4⟩ } := by
  refine ⟨(m₁.complete m.cpu.regs.pc code).2, ?_, bus_complete .., cpu_complete ..⟩
  rw [h.step, he]
  rfl

/-- The accesses of a step are those of its operation, after polls and the fetch of the code. -/
theorem performs_step (h : m.Begins code m₀)
    (hp : Performs m₀.bus (fetches m₀.cpu.regs.pc operands ++ data) m₁.bus) :
    ∃ polls, Polls (m.cpu.ime.toNat + m.cpu.halted.toNat) polls ∧
      Performs m.bus (polls ++ fetches m.cpu.regs.pc (code.bytes ++ operands) ++ data) m₁.bus := by
  obtain ⟨polls, hl, hp₀⟩ := h.performs
  refine ⟨polls, hl, ?_⟩
  have hpc : m₀.cpu.regs.pc = m.cpu.regs.pc + UInt16.ofNat code.bytes.length := by rw [h.cpu]
  rw [hpc] at hp
  rw [fetches_append, ← List.append_assoc, List.append_assoc]
  exact hp₀.append hp

end Begins

/-- A step polls the interrupt lines as often as it has to, reads some bytes in a row from the
program counter on, and then makes some accesses to data. -/
structure StepsBy (m : Machine (Traced σ)) (bytes : List UInt8) (data : List Access) (n : Nat)
    (m' : Machine (Traced σ)) : Prop where
  step : m.step = .ok (n, m')
  history : ∃ polls, Polls (m.cpu.ime.toNat + m.cpu.halted.toNat) polls ∧
    m'.bus.history = m.bus.history ++ polls ++ fetches m.cpu.regs.pc bytes ++ data

/-- A step makes its accesses to data in one way, and goes to one machine. -/
theorem StepsBy.unique {m m' m'' : Machine (Traced σ)} {bytes : List UInt8}
    {data data' : List Access} {n n' : Nat} (h : m.StepsBy bytes data n m')
    (h' : m.StepsBy bytes data' n' m'') : data = data' ∧ m' = m'' := by
  obtain ⟨-, rfl⟩ := Prod.mk.inj (Except.ok.inj (h.step.symm.trans h'.step))
  obtain ⟨polls, hp, hh⟩ := h.history
  obtain ⟨polls', hp', hh'⟩ := h'.history
  have hl : (m.bus.history ++ polls ++ fetches m.cpu.regs.pc bytes).length =
      (m.bus.history ++ polls' ++ fetches m.cpu.regs.pc bytes).length := by
    simp only [List.length_append, hp.length_eq, hp'.length_eq]
  exact ⟨(List.append_inj (hh.symm.trans hh') hl).2, rfl⟩

/-- An operation all of whose accesses are counted makes a step that costs four cycles for each. -/
theorem Begins.exists_stepsBy {m m₀ m₁ : Machine (Traced σ)} (h : m.Begins code m₀)
    (he : m₀.execCode code = .ok m₁) (hp : m₀.Proceeds operands data m₁) :
    ∃ m', m.StepsBy (code.bytes ++ operands) data
        (4 * (code.bytes.length + operands.length + data.length)) m' ∧
      m'.cpu.rules = m₁.cpu.rules ∧
      m'.cpu.regs = { m₁.cpu.regs with f := m₁.cpu.flags.toByte } := by
  obtain ⟨m', hs, hb, hc⟩ := h.exists_step he
  obtain ⟨polls, hl, hp'⟩ := h.performs_step hp.performs
  have hn : m₁.cpu.accesses * 4 + 4 =
      4 * (code.bytes.length + operands.length + data.length) := by
    have hb : 0 < code.bytes.length := by cases code <;> exact Nat.succ_pos _
    rw [hp.counted, h.cpu]
    show (code.bytes.length - 1 + (operands.length + data.length)) * 4 + 4 = _
    omega
  refine ⟨m', ⟨?_, polls, hl, ?_⟩, ?_, ?_⟩
  · rw [hs, hn]
  · rw [hb, hp'.history_eq]
    simp only [List.append_assoc]
  · rw [hc]
  · rw [hc]

end Machine

end DotMatrix
