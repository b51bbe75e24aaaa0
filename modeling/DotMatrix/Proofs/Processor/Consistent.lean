import DotMatrix.Proofs.Processor.Accounting
import DotMatrix.Proofs.Processor.FlatStep
import DotMatrix.Proofs.Processor.Frame

/-!
# The state of the processor between steps

F is kept twice, as a byte and decoded, and a request of DI or EI in two fields, its value and
whether it is armed. Between steps the two agree.

* `c.Arises` says that a processor comes from a new one by steps, resets and power-ons. Each of
  these may find it on another bus.
* `Cpu.Consistent` is what holds of such a processor; `Machine.consistent_of_step` and
  `Machine.consistent_powerOn` keep it.
* `Cpu.Arises.agrees` is the law in full.
-/

namespace DotMatrix

theorem Flags.toByte_default : toByte {} = 0 := by decide

namespace Cpu

/-- A processor comes from a new one by steps, resets and power-ons, on any buses. -/
inductive Arises : Cpu → Prop
  | new (rules : FlagRules) : Arises { rules := rules }
  | step {σ : Type} [Bus σ] {m m' : Machine σ} {n : Nat} (h : Arises m.cpu)
      (hs : m.step = .ok (n, m')) : Arises m'.cpu
  | reset {c : Cpu} (h : Arises c) : Arises c.reset
  | powerOn {σ : Type} [Bus σ] {m : Machine σ} (h : Arises m.cpu) : Arises m.powerOn.cpu

/-- What holds of a processor between steps. -/
structure Consistent (c : Cpu) : Prop where
  encoded : c.regs.f = c.flags.toByte
  settled : c.request.IsSettled
  halts : c.halted = false ∨ c.stopped = false
  cycles : c.last.cycles ≤ 20

theorem Consistent.new (rules : FlagRules) : Consistent { rules := rules } where
  encoded := Flags.toByte_default.symm
  settled := ImeRequest.isSettled_none
  halts := .inl rfl
  cycles := Nat.zero_le _

theorem Consistent.reset {c : Cpu} (h : c.Consistent) : c.reset.Consistent where
  encoded := Flags.toByte_default.symm
  settled := ImeRequest.isSettled_none
  halts := .inl rfl
  cycles := h.cycles

end Cpu

namespace Machine

variable {σ : Type} [Bus σ] {m m' : Machine σ} {n : Nat}

/-- A step that fetches an opcode begins with a code. -/
theorem exists_begins_of_fetched {opcode : UInt8} (h : m.fetched? = some opcode) :
    ∃ code m₀, m.Begins code m₀ := by
  unfold fetched? at h
  split at h
  · next m₁ ht => exact ⟨_, _, begins_of_turn ht⟩
  · cases h

/-- The instruction of a code leaves a consistent processor if the request was settled before it,
whatever the flags were. -/
theorem Begins.consistent {code : Code} {m₀ : Machine σ} (h : m.Begins code m₀)
    (hq : m.cpu.request.IsSettled) (hs : m.step = .ok (n, m')) (hn : m'.cpu.last.cycles ≤ 20) :
    m'.cpu.Consistent := by
  obtain ⟨m₁, operands, data, sample, he, -, -, hen, hh, hst⟩ := h.exists_frames
  obtain ⟨m'', hs', -, hc⟩ := h.exists_step he
  obtain ⟨-, rfl⟩ : n = _ ∧ m' = m'' := by
    rw [hs] at hs'
    exact Prod.mk.inj (Except.ok.inj hs')
  exact
    { encoded := by rw [hc]
      settled := by
        rw [Prod.mk.injEq] at hen
        rw [hc, hen.1, hen.2]
        exact ImeRequest.isSettled_settle hq _ _
      halts := by
        rw [hc]
        -- HALT is not STOP.
        show m₁.cpu.halted = false ∨ m₁.cpu.stopped = false
        rw [hh, hst]
        by_cases ho : code.operation = .halt
        · exact .inr (by simp [ho])
        · exact .inl (by simp [ho])
      cycles := hn }

/-- A step keeps a processor consistent, whichever turn it takes. -/
theorem consistent_of_step (h : m.cpu.Consistent) (hs : m.step = .ok (n, m')) :
    m'.cpu.Consistent := by
  cases takes_of_step hs with
  | sampleLines m' turn fetched stopped cpu =>
    have hh : m.cpu.halted = false := by
      rcases h.halts with hh | hh
      · exact hh
      · rw [hh] at stopped
        cases stopped
    rw [cpu]
    exact ⟨h.encoded, h.settled, .inl hh, h.cycles⟩
  | enterHandler i m' turn fetched running serves cpu =>
    rw [cpu]
    exact ⟨h.encoded, h.settled, .inl rfl, h.cycles⟩
  | wait m' turn fetched halted cpu =>
    rw [cpu]
    exact h
  | fetch opcode m₁ m' polls operands data sample fetched _ _ _ _ _ completes =>
    obtain ⟨code, m₀, hb⟩ := exists_begins_of_fetched fetched
    exact hb.consistent h.settled hs completes.cycles_bounds.2

/-- The processor in the power-on state. -/
theorem exists_cpu_powerOn (m : Machine σ) :
    ∃ b, m.powerOn.cpu =
      { m.cpu.reset with regs := PowerOn.registers b, flags := .ofByte 0x80 } := by
  unfold powerOn
  dsimp only
  rw [cpu_putAll]
  split
  · rw [cpu_sumBytes]
    exact ⟨_, rfl⟩
  · exact ⟨0, rfl⟩

theorem consistent_powerOn (h : m.cpu.Consistent) : m.powerOn.cpu.Consistent := by
  obtain ⟨b, hb⟩ := m.exists_cpu_powerOn
  have hf : (Flags.ofByte 0x80).toByte = 0x80 := by decide
  rw [hb]
  exact ⟨hf.symm, h.reset.settled, h.reset.halts, h.reset.cycles⟩

end Machine

theorem Cpu.Arises.consistent {c : Cpu} (h : c.Arises) : c.Consistent := by
  induction h with
  | new rules => exact .new rules
  | step _ hs ih => exact Machine.consistent_of_step ih hs
  | reset _ ih => exact ih.reset
  | powerOn _ ih => exact Machine.consistent_powerOn ih

/-- Between steps, resets and power-ons, the low nibble of F is clear and the decoded flags are
those of F; a request for the master enable is armed if there is one; the processor is not both
halted and stopped; and the last instruction has cost 20 cycles at most. -/
theorem Cpu.Arises.agrees {c : Cpu} (h : c.Arises) :
    c.regs.f &&& 0x0F = 0 ∧ c.flags = .ofByte c.regs.f ∧ c.regs.f = c.flags.toByte ∧
      (c.request.isArmed = true ↔ c.request.value?.isSome = true) ∧
      ¬ (c.halted = true ∧ c.stopped = true) ∧ c.last.cycles ≤ 20 := by
  have hc := h.consistent
  refine ⟨?_, ?_, hc.encoded, ?_, ?_, hc.cycles⟩
  · rw [hc.encoded]
    exact Flags.toByte_and_low _
  · rw [hc.encoded, Flags.ofByte_toByte]
  · rw [hc.settled]
  · rintro ⟨hh, hs⟩
    rcases hc.halts with h | h
    · rw [hh] at h
      cases h
    · rw [hs] at h
      cases h

/-- POP AF takes F from the stack without its low nibble. -/
theorem Cpu.Arises.agrees_of_popAf :
    let m : Machine FlatMemory := { bus := .filled 0xF1 }
    ∃ n m', m.step = .ok (n, m') ∧ m'.cpu.Arises ∧ m'.cpu.regs.a = 0xF1 ∧ m'.cpu.regs.f = 0xF0 ∧
      m'.cpu.flags = .ofByte m'.cpu.regs.f := by
  intro m
  have hc : m.IsCalm := Machine.isCalm_of_pending rfl rfl (.inl rfl)
  have ho : m.bus.get m.cpu.regs.pc = 0xF1 := FlatMemory.get_filled ..
  have hp : m.fetchOpcode.2.pop.1 = 0xF1F1 := by
    rw [Machine.pop_eq]
    show Word.ofBytes ((FlatMemory.filled 0xF1).get _) ((FlatMemory.filled 0xF1).get _) = 0xF1F1
    rw [FlatMemory.get_filled, FlatMemory.get_filled]
    rfl
  obtain ⟨m', hs, -, hm⟩ := Machine.step_of_execBase hc ho (by decide) rfl
  have ha : m'.cpu.Arises := .step (.new {}) hs
  refine ⟨_, m', hs, ha, ?_, ?_, (Cpu.Arises.agrees ha).2.1⟩
  · rw [hm]
    show Word.high m.fetchOpcode.2.pop.1 = 0xF1
    rw [hp]
    rfl
  · rw [hm]
    show (Flags.ofByte (Word.low m.fetchOpcode.2.pop.1 &&& 0xF0)).toByte = 0xF0
    rw [hp]
    rfl

end DotMatrix
