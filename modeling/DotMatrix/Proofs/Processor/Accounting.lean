import DotMatrix.Proofs.Processor.Instruction

/-!
# Accounting

What a step costs and which accesses it makes, on any bus and in any state.

* `step_cycles`: a step that fetches an instruction costs four cycles for each access, those to
  interrupt lines and joypad lines apart, and the code alone says how many these are. Any other step
  costs 4 or 20 cycles.
* `step_flow`: the accesses to instruction bytes come first and in a row, and the program counter
  goes where the operation leads.
-/

namespace DotMatrix

/-- A listing records an instruction by its address, its opcode, the bytes after it and its
cycles. -/
def Listing.Records (i : Listing) (pc : UInt16) (opcode : UInt8) (operands : List UInt8)
    (cycles : Nat) : Prop :=
  i.pc = pc ∧ i.cycles = cycles ∧
    if opcode = 0xCB then
      ∃ second, operands = [second] ∧ i.opcode = Word.ofBytes 0xCB second ∧ i.twoByte = true
    else i.opcode = opcode.toUInt16 ∧ i.twoByte = false

theorem Fetched.records_listing {i : Fetched} {opcode : UInt8} {operands : List UInt8}
    (h : i.code.Spells opcode operands) :
    i.listing.Records i.pc opcode operands i.cycles := by
  obtain ⟨pc, code, cycles⟩ := i
  cases code with
  | base b =>
    obtain ⟨hb, rfl⟩ := h
    refine ⟨rfl, rfl, ?_⟩
    rw [if_neg hb]
    exact ⟨rfl, rfl⟩
  | bit b =>
    obtain ⟨rfl, rfl⟩ := h
    exact ⟨rfl, rfl, b, rfl, rfl, rfl⟩

/-- The bytes that spell a code are as many as it says. -/
theorem Code.size_of_spells {code : Code} {opcode : UInt8} {operands : List UInt8}
    (h : code.Spells opcode operands) : code.size = Opcode.size opcode := by
  cases code with
  | base b =>
    obtain ⟨-, rfl⟩ := h
    rfl
  | bit b =>
    obtain ⟨rfl, -⟩ := h
    rfl

namespace Machine

variable {σ : Type} [Bus σ]

/-- An instruction costs what its code says. -/
theorem Completes.cycles_eq {m m' : Machine σ} {opcode : UInt8} {operands : List UInt8}
    {data sample : List Access} (h : m.Completes opcode operands data sample m') :
    m'.cpu.last.cycles =
      m'.cpu.last.code.cycles (m'.cpu.last.code.isTaken (.ofByte m.cpu.regs.f)) := by
  rw [h.cycles, h.size, h.dataSize, Code.cycles, Code.size_of_spells h.spells]

/-- An instruction costs from 4 to 20 cycles. -/
theorem Completes.cycles_bounds {m m' : Machine σ} {opcode : UInt8} {operands : List UInt8}
    {data sample : List Access} (h : m.Completes opcode operands data sample m') :
    4 ≤ m'.cpu.last.cycles ∧ m'.cpu.last.cycles ≤ 20 := by
  have hc := Code.cycles_mem m'.cpu.last.code (m'.cpu.last.code.isTaken (.ofByte m.cpu.regs.f))
  rw [← h.cycles_eq] at hc
  simp only [List.mem_cons, List.not_mem_nil, or_false] at hc
  omega

/-- Every step gives its cycles. If it fetches an opcode they are four for each access to
instruction bytes and data, which is also what the code, together with the condition of a call or a
return, says they are. The instruction is then the last one on record. -/
theorem step_cycles (m : Machine (Traced σ)) :
    ∃ n m', m.step = .ok (n, m') ∧
      match m.fetched? with
      | some opcode =>
        ∃ polls operands data sample code,
          m'.bus.history = m.bus.history ++ polls ++
            (fetches m.cpu.regs.pc (opcode :: operands) ++ data) ++ sample ∧
          Polls (m.cpu.ime.toNat + m.cpu.halted.toNat) polls ∧
          (opcode :: operands).length = Opcode.size opcode ∧
          (BaseOp.decode opcode).Samples operands sample ∧
          n = 4 * (fetches m.cpu.regs.pc (opcode :: operands) ++ data).length ∧
          code.Spells opcode operands ∧
          n = code.cycles (code.isTaken (.ofByte m.cpu.regs.f)) ∧
          n ∈ [4, 8, 12, 16, 20] ∧
          m'.cpu.last = ⟨m.cpu.regs.pc, code, n⟩ ∧
          m'.cpu.last.listing.Records m.cpu.regs.pc opcode operands n
      | none =>
        m'.cpu.last = m.cpu.last ∧
          match m.turn.1 with
          | .enterHandler _ => n = 20
          | _ => n = 4 := by
  obtain ⟨n, m', hm, ht⟩ := m.exists_takes
  refine ⟨n, m', hm, ?_⟩
  cases ht with
  | sampleLines m' turn fetched stopped cpu =>
    rw [fetched, turn, cpu]
    exact ⟨rfl, rfl⟩
  | enterHandler i m' turn fetched running serves cpu =>
    rw [fetched, turn, cpu]
    exact ⟨rfl, rfl⟩
  | wait m' turn fetched halted cpu =>
    rw [fetched, turn, cpu]
    exact ⟨rfl, rfl⟩
  | fetch opcode m₁ m' polls operands data sample fetched serves running cpu polled performs
      comp =>
    have hr : m₁.cpu.regs = m.cpu.regs := by rw [cpu]
    have hn := comp.cycles_eq
    have hp := comp.pc
    rw [hr] at hn hp
    rw [fetched]
    refine ⟨polls, operands, data, sample, m'.cpu.last.code, ?_, polled, comp.size, comp.samples,
      ?_, comp.spells, hn, ?_, ?_, ?_⟩
    · rw [comp.performs.history_eq, performs.history_eq, hr, List.append_assoc]
      simp only [List.append_assoc]
    · rw [comp.cycles, List.length_append, length_fetches]
    · rw [hn]
      exact Code.cycles_mem _ _
    · rw [← hp]
    · rw [← hp]
      exact Fetched.records_listing comp.spells

/-- A step that fetches an opcode reads the bytes of the instruction, in a row and before it
accesses any data. The program counter then is where the operation leads. -/
theorem step_flow (m : Machine (Traced σ)) {opcode : UInt8} (h : m.fetched? = some opcode) :
    ∃ n m' polls operands data sample, m.step = .ok (n, m') ∧
      m'.bus.history =
        m.bus.history ++ polls ++ fetches m.cpu.regs.pc (opcode :: operands) ++ data ++ sample ∧
      Polls (m.cpu.ime.toNat + m.cpu.halted.toNat) polls ∧
      (BaseOp.decode opcode).Samples operands sample ∧
      (opcode :: operands).length = Opcode.size opcode ∧
      Opcode.size opcode ∈ [1, 2, 3] ∧
      (BaseOp.decode opcode).Leads m.cpu.regs (.ofByte m.cpu.regs.f) operands data
        m'.cpu.regs.pc := by
  obtain ⟨n, m', hm, ht⟩ := m.exists_takes
  obtain ⟨m₁, polls, operands, data, sample, -, -, -, cpu, polled, performs, comp⟩ :=
    ht.of_fetched h
  have hr : m₁.cpu.regs = m.cpu.regs := by rw [cpu]
  have hl := comp.leads
  rw [hr] at hl
  refine ⟨n, m', polls, operands, data, sample, hm, ?_, polled, comp.samples, comp.size,
    Opcode.size_mem opcode, hl⟩
  rw [comp.performs.history_eq, performs.history_eq, hr]
  simp only [List.append_assoc]

/-- A load of two bytes that begins at the last address is followed by the byte at address 1. -/
theorem step_flow_at_end :
    let m : Machine (Traced FlatMemory) :=
      { cpu := { regs := { pc := 0xFFFF } }, bus := { bus := .filled 0x3E } }
    m.fetched? = some 0x3E ∧ ∃ n m', m.step = .ok (n, m') ∧ m'.cpu.regs.pc = 1 := by
  intro m
  have hf : m.fetched? = some 0x3E := congrArg some (FlatMemory.get_filled 0x3E 0xFFFF)
  obtain ⟨n, m', polls, operands, data, sample, hm, -, -, -, hs, -, hl⟩ := step_flow m hf
  refine ⟨hf, n, m', hm, ?_⟩
  have hs : operands.length + 1 = 2 := hs
  have hl : m'.cpu.regs.pc = 0xFFFF + UInt16.ofNat (1 + operands.length) := hl
  rw [hl, Nat.add_comm, hs]
  rfl

end Machine

end DotMatrix
