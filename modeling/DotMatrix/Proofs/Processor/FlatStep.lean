import DotMatrix.Proofs.Processor.EnableDelay

/-!
# Steps on flat memory

On flat memory a read gives the byte at its address and changes nothing, so that what a step does
can be read off the processor and the memory.

* `Machine.pending` are the interrupts that are enabled and requested.
* `turn_of_isCalm` and `turn_of_first?` say when an instruction is fetched, and when the handler of
  an interrupt is entered.
* `step_of_execBase` is an instruction of the first page, from the fetch of its opcode to the record
  of its cycles; `step_decSp`, `step_ei` and `step_reti` are cases of it.
-/

namespace DotMatrix

/-- A processor after an instruction of one byte that changes neither registers nor flags. -/
def Cpu.past (c : Cpu) (code : UInt8) : Cpu :=
  { c with
    regs := { c.regs with f := c.regs.f &&& 0xF0, pc := c.regs.pc + 1 }
    flags := .ofByte c.regs.f
    accesses := 0
    last := ⟨c.regs.pc, .base code, 4⟩ }

namespace Machine

variable {m : Machine FlatMemory} {i : Nat}

/-- The interrupts that are enabled and requested. -/
def pending (m : Machine FlatMemory) : UInt8 :=
  Interrupt.pending (m.bus.get Interrupt.enableAddress) (m.bus.get Interrupt.requestAddress)

/-! ### Accesses -/

theorem noteAll_nil {σ : Type} (m : Machine σ) : m.noteAll (fun _ => []) = m := by
  obtain ⟨cpu, bus, ⟨threshold, entries⟩⟩ := m
  cases threshold <;> rfl

theorem sample_eq (m : Machine FlatMemory) (a : UInt16) : m.sample a = (m.bus.get a, m) := by
  show (_, m.noteAll fun _ => []) = _
  rw [noteAll_nil]
  rfl

theorem pollInterrupts_eq (m : Machine FlatMemory) : m.pollInterrupts = (m.pending, m) := by
  unfold pollInterrupts
  rw [sample_eq]
  dsimp only
  rw [sample_eq]
  rfl

theorem firstInterrupt_eq (m : Machine FlatMemory) :
    m.firstInterrupt = (if m.cpu.ime then Interrupt.first? m.pending else none, m) := by
  unfold firstInterrupt
  rw [pollInterrupts_eq]
  split <;> rfl

theorem pop_eq (m : Machine FlatMemory) :
    m.pop =
      (Word.ofBytes (m.bus.get (m.cpu.regs.sp + 1)) (m.bus.get m.cpu.regs.sp),
        { m with
          cpu :=
            { m.cpu with
              accesses := m.cpu.accesses + 2
              regs := { m.cpu.regs with sp := m.cpu.regs.sp + 2 } } }) := by
  simp [pop, read, sample_eq, tick, mapRegs]

/-! ### The entry of an interrupt -/

theorem cpu_enterHandler (m : Machine FlatMemory) (i : Nat) :
    (m.enterHandler i).cpu =
      { m.cpu with
        ime := false
        halted := false
        regs := { m.cpu.regs with sp := m.cpu.regs.sp - 1 - 1, pc := Interrupt.vector i } } := rfl

theorem bus_enterHandler (m : Machine FlatMemory) (i : Nat) :
    (m.enterHandler i).bus =
      ((m.bus.set Interrupt.requestAddress
              (m.bus.get Interrupt.requestAddress &&& ~~~BitOp.mask i)).set
            (m.cpu.regs.sp - 1) (Word.high m.cpu.regs.pc)).set
          (m.cpu.regs.sp - 1 - 1) (Word.low m.cpu.regs.pc) := rfl

/-! ### Turns -/

/-- A processor that runs is calm if interrupts are disabled or none is pending. -/
theorem isCalm_of_pending (running : m.cpu.stopped = false) (awake : m.cpu.halted = false)
    (h : m.cpu.ime = false ∨ Interrupt.first? m.pending = none) : m.IsCalm where
  running := running
  awake := awake
  serves := by
    rw [firstInterrupt_eq]
    rcases h with h | h <;> simp [h]

/-- A calm processor executes the next instruction. -/
theorem turn_of_isCalm (h : m.IsCalm) : m.turn = (.execute, m) := by
  have hf : m.firstInterrupt = (none, m) := by
    have hs := h.serves
    rw [firstInterrupt_eq] at hs ⊢
    exact Prod.ext hs rfl
  unfold turn
  rw [if_neg (by simp [h.running]), hf]
  exact if_neg (by simp [h.awake])

/-- The first pending interrupt is served, if interrupts are enabled. -/
theorem turn_of_first? (running : m.cpu.stopped = false) (enabled : m.cpu.ime = true)
    (h : Interrupt.first? m.pending = some i) : m.turn = (.enterHandler i, m) := by
  unfold turn
  rw [if_neg (by simp [running]), firstInterrupt_eq, enabled, if_pos rfl, h]

theorem step_of_first? (running : m.cpu.stopped = false) (enabled : m.cpu.ime = true)
    (h : Interrupt.first? m.pending = some i) : m.step = .ok (20, m.enterHandler i) := by
  unfold step
  rw [turn_of_first? running enabled h]

theorem fetched?_of_isCalm (h : m.IsCalm) : m.fetched? = some (m.bus.get m.cpu.regs.pc) := by
  unfold fetched?
  rw [turn_of_isCalm h]
  rfl

/-! ### Instructions -/

/-- A calm processor executes the operation at the program counter and completes it. -/
theorem step_of_execBase (h : m.IsCalm) {code : UInt8} (hc : m.bus.get m.cpu.regs.pc = code)
    (hb : code ≠ 0xCB) {m₁ : Machine FlatMemory}
    (he : m.fetchOpcode.2.execBase (BaseOp.decode code) = .ok m₁) :
    ∃ m', m.step = .ok (m₁.cpu.accesses * 4 + 4, m') ∧ m'.bus = m₁.bus ∧
      m'.cpu =
        { m₁.cpu with
          regs := { m₁.cpu.regs with f := m₁.cpu.flags.toByte }
          ime := (m₁.cpu.request.settle m₁.cpu.ime).1
          request := (m₁.cpu.request.settle m₁.cpu.ime).2
          last := ⟨m.cpu.regs.pc, .base code, m₁.cpu.accesses * 4 + 4⟩ } := by
  have hd : m.fetchOpcode.2.dispatch m.fetchOpcode.1 = .ok (.base code, m₁) := by
    have hf : m.fetchOpcode.1 = code := hc
    rw [hf]
    unfold dispatch
    split
    · next hp => exact absurd ((BaseOp.decode_eq_bitPage_iff code).1 hp) hb
    · rw [he]
      rfl
  refine ⟨(m₁.complete m.cpu.regs.pc (.base code)).2, ?_, bus_complete .., cpu_complete ..⟩
  unfold step
  rw [turn_of_isCalm h]
  dsimp only
  rw [executeNext_eq, hd]
  rfl

/-- DEC SP, and a request that takes effect with it. -/
theorem step_decSp (h : m.IsCalm) (hc : m.bus.get m.cpu.regs.pc = 0x3B) :
    ∃ m', m.step = .ok (4, m') ∧ m'.bus = m.bus ∧
      m'.cpu =
        { m.cpu.past 0x3B with
          regs := { (m.cpu.past 0x3B).regs with sp := m.cpu.regs.sp - 1 }
          ime := (m.cpu.request.settle m.cpu.ime).1
          request := (m.cpu.request.settle m.cpu.ime).2 } := by
  obtain ⟨m', hs, hb, hm⟩ := step_of_execBase h hc (by decide) rfl
  refine ⟨m', hs, hb, ?_⟩
  rw [hm, Cpu.past, ← Flags.toByte_ofByte]
  rfl

/-- EI requests that interrupts be enabled. -/
theorem step_ei (h : m.IsCalm) (hc : m.bus.get m.cpu.regs.pc = 0xFB) :
    ∃ m', m.step = .ok (4, m') ∧ m'.bus = m.bus ∧
      m'.cpu = { m.cpu.past 0xFB with request := .armed true } := by
  obtain ⟨m', hs, hb, hm⟩ := step_of_execBase h hc (by decide) rfl
  refine ⟨m', hs, hb, ?_⟩
  rw [hm, Cpu.past, ← Flags.toByte_ofByte]
  rfl

/-- RETI pops the program counter and enables interrupts. -/
theorem step_reti (h : m.IsCalm) (hc : m.bus.get m.cpu.regs.pc = 0xD9) :
    ∃ m', m.step = .ok (12, m') ∧ m'.bus = m.bus ∧
      m'.cpu =
        { m.cpu with
          regs :=
            { m.cpu.regs with
              f := m.cpu.regs.f &&& 0xF0
              sp := m.cpu.regs.sp + 2
              pc := Word.ofBytes (m.bus.get (m.cpu.regs.sp + 1)) (m.bus.get m.cpu.regs.sp) }
          flags := .ofByte m.cpu.regs.f
          accesses := 2
          ime := true
          request := .none
          last := ⟨m.cpu.regs.pc, .base 0xD9, 12⟩ } := by
  have he : m.fetchOpcode.2.execBase (BaseOp.decode 0xD9) = .ok m.fetchOpcode.2.execReti := rfl
  rw [execReti, pop_eq] at he
  obtain ⟨m', hs, hb, hm⟩ := step_of_execBase h hc (by decide) he
  refine ⟨m', hs, hb, ?_⟩
  rw [hm, ← Flags.toByte_ofByte]
  rfl

end Machine

end DotMatrix
