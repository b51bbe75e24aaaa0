import DotMatrix.Processor.Execution
import DotMatrix.Proofs.Processor.Effect

/-!
# What an operation does

Every valid operation of the first page is executed without a fault. Its accesses are those to the
bytes after its opcode, in a row, and then those to data; only STOP makes an uncounted one.

* `BaseOp.Leads` is the law of the program counter: where an operation leads, and what it pushes or
  pops on the way.
* `m.Executes op r operands data sample m'` collects what is known of the execution of `op`, where
  `r` are the registers before the opcode was fetched. `Machine.exists_executes` proves it.
* `Machine.exists_execBit` is the counterpart for the second page.
-/

namespace DotMatrix

namespace BaseOp

/-- Whether an operation goes on behind its instruction bytes and leaves the control state alone. -/
def isStraight : BaseOp → Bool
  | halt | stop | di | ei | jump _ | jumpHl | jumpRelative _ | call _ | ret _ | reti | rst _
  | bitPage => false
  | _ => true

/-- Whether an operation changes the control state. -/
def isControl : BaseOp → Bool
  | halt | stop | di | ei | reti => true
  | _ => false

/-- The interrupt master enable and the request after an operation, given those before it. -/
def enable (op : BaseOp) (ime : Bool) (request : ImeRequest) : Bool × ImeRequest :=
  match op with
  | di => (ime, .scheduled false)
  | ei => (ime, .scheduled true)
  | reti => (true, .none)
  | _ => (ime, request)

theorem enable_of_not_isControl {op : BaseOp} (h : op.isControl = false) (ime : Bool)
    (request : ImeRequest) : op.enable ime request = (ime, request) := by
  cases op with
  | halt | stop | di | ei | reti => cases h
  | _ => rfl

/-- Where an operation leads, with the registers `r` and the flags `fl` before its opcode is
fetched, the bytes after the opcode and the accesses to data. -/
def Leads (op : BaseOp) (r : Registers) (fl : Flags) (operands : List UInt8) (data : List Access)
    (pc : UInt16) : Prop :=
  match op with
  | jump c =>
    ∃ lo hi, operands = [lo, hi] ∧ pc = if c.holds fl then Word.ofBytes hi lo else r.pc + 3
  | jumpHl => pc = r.hl
  | jumpRelative c =>
    ∃ n, operands = [n] ∧ pc = if c.holds fl then Word.addSigned (r.pc + 2) n else r.pc + 2
  | call c =>
    ∃ lo hi, operands = [lo, hi] ∧
      if c.holds fl then data = pushes r.sp (r.pc + 3) ∧ pc = Word.ofBytes hi lo
      else data = [] ∧ pc = r.pc + 3
  | ret c =>
    if c.holds fl then ∃ lo hi, data = pops r.sp lo hi ∧ pc = Word.ofBytes hi lo
    else data = [] ∧ pc = r.pc + 1
  | reti => ∃ lo hi, data = pops r.sp lo hi ∧ pc = Word.ofBytes hi lo
  | rst v => data = pushes r.sp (r.pc + 1) ∧ pc = v
  | stop => ∃ next, operands = [next] ∧ pc = if next = 0 then r.pc + 2 else r.pc + 1
  | _ => pc = r.pc + UInt16.ofNat (1 + operands.length)

/-- Which uncounted accesses an operation makes: STOP samples the joypad lines if it is valid. -/
def Samples (op : BaseOp) (operands : List UInt8) (sample : List Access) : Prop :=
  if op = stop ∧ operands = [0] then ∃ v, sample = [.read 0xFF00 v] else sample = []

end BaseOp

namespace Machine

variable {σ : Type} [Bus σ]

/-- What the execution of an operation does, where `r` are the registers before its opcode was
fetched. -/
structure Executes (m : Machine σ) (op : BaseOp) (r : Registers) (operands : List UInt8)
    (data sample : List Access) (m' : Machine σ) : Prop where
  performs : Performs m.bus (fetches (r.pc + 1) operands ++ data ++ sample) m'.bus
  counted : m'.cpu.accesses = m.cpu.accesses + (operands.length + data.length)
  size : operands.length = op.size
  dataSize : op ≠ .bitPage → data.length = op.dataSize (op.isTaken m.cpu.flags)
  leads : op.Leads r m.cpu.flags operands data m'.cpu.regs.pc
  samples : op.Samples operands sample
  enable : (m'.cpu.ime, m'.cpu.request) = op.enable m.cpu.ime m.cpu.request
  running : op ≠ .halt → op ≠ .stop →
    m'.cpu.halted = m.cpu.halted ∧ m'.cpu.stopped = m.cpu.stopped

variable {m m' : Machine σ} {op : BaseOp} {r : Registers} {operands : List UInt8}
  {data : List Access}

theorem Executes.of_proceeds (hc : op.isControl = false)
    (hr : m.cpu.regs = { r with pc := r.pc + 1 }) (h : m.Proceeds operands data m')
    (size : operands.length = op.size)
    (dataSize : op ≠ .bitPage → data.length = op.dataSize (op.isTaken m.cpu.flags))
    (leads : op.Leads r m.cpu.flags operands data m'.cpu.regs.pc) :
    m.Executes op r operands data [] m' where
  performs := by
    have hp := h.performs
    rw [hr] at hp
    rwa [List.append_nil]
  counted := h.counted
  size := size
  dataSize := dataSize
  leads := leads
  samples := by
    unfold BaseOp.Samples
    rw [if_neg]
    rintro ⟨rfl, -⟩
    cases hc
  enable := by
    obtain ⟨hi, hq, -, -⟩ := Cpu.fields_of_control h.control
    rw [BaseOp.enable_of_not_isControl hc, hi, hq]
  running _ _ := (Cpu.fields_of_control h.control).2.2

/-! ### Straight operations -/

variable (m)

theorem advances_load {dst src : Operand} (h : (BaseOp.load dst src).isValid = true) :
    ∃ m' b d, m.execBase (.load dst src) = .ok m' ∧ m.Advances b d m' ∧
      b.length = src.size + dst.size ∧ d.length = src.dataSize + dst.dataSize := by
  simp only [BaseOp.isValid, Bool.and_eq_true, Bool.or_eq_true, beq_iff_eq] at h
  obtain ⟨⟨hdst, hsrc⟩, horder⟩ := h
  obtain ⟨v, m₁, b₁, d₁, h₁, ha₁, hb₁, hd₁⟩ := m.advances_readOperand hsrc
  obtain ⟨m₂, b₂, d₂, h₂, ha₂, hb₂, hd₂⟩ := m₁.advances_writeOperand hdst v
  -- The destination takes no instruction byte if reading the source took accesses to memory.
  have horder : d₁ = [] ∨ b₂ = [] := by
    rw [← hd₁, ← hb₂] at horder
    exact horder.imp List.eq_nil_of_length_eq_zero List.eq_nil_of_length_eq_zero
  refine ⟨m₂, _, _, ?_, ha₁.trans ha₂ horder, ?_, ?_⟩
  · simp only [execBase, h₁, h₂, bind, Except.bind]
  · rw [List.length_append, hb₁, hb₂]
  · rw [List.length_append, hd₁, hd₂]

theorem advances_byteOp (k : ByteOp) {src : Operand} (h : src.isReadable = true) :
    ∃ m' b d, m.execBase (.byteOp k src) = .ok m' ∧ m.Advances b d m' ∧
      b.length = src.size ∧ d.length = src.dataSize := by
  obtain ⟨v, m₁, b, d, h₁, ha, hb, hd⟩ := m.advances_readOperand h
  refine ⟨m₁.setResult (k.apply m₁.cpu.rules src m₁.cpu.regs.a v m₁.cpu.flags), b, d, ?_,
    ha.then_cpu rfl rfl rfl rfl, hb, hd⟩
  simp only [execBase, h₁, bind, Except.bind, pure, Except.pure]

theorem advances_loadWord {s : Selector} (h : s = .bc ∨ s = .de ∨ s = .hl ∨ s = .sp) :
    ∃ m' b, m.execLoadWord s = .ok m' ∧ m.Advances b [] m' ∧ b.length = 2 := by
  have hs : s.isPair = true := by
    rcases h with rfl | rfl | rfl | rfl <;> rfl
  obtain ⟨lo, hi, -, hf⟩ := m.advances_fetchWord
  obtain ⟨m', hm, ha⟩ := m.fetchWord.2.advances_setWordReg hs m.fetchWord.1
  refine ⟨m', [lo, hi], ?_, hf.then_silent ha, rfl⟩
  rw [execLoadWord, if_pos h]
  exact hm

theorem advances_storeSp : ∃ b d, m.Advances b d m.execStoreSp ∧ b.length = 2 ∧ d.length = 2 := by
  obtain ⟨lo, hi, -, hf⟩ := m.advances_fetchWord
  have h₁ := hf.trans (advances_write _ m.fetchWord.1 (Word.low m.cpu.regs.sp)) (.inl rfl)
  have h₂ := h₁.trans (advances_write _ (m.fetchWord.1 + 1) (Word.high m.cpu.regs.sp)) (.inr rfl)
  exact ⟨_, _, h₂, rfl, rfl⟩

theorem advances_mapWordReg {s : Selector} (h : s.isPair = true) (g : UInt16 → UInt16) :
    ∃ m', (do let w ← m.wordReg s; m.setWordReg s (g w)) = .ok m' ∧ m.Advances [] [] m' := by
  obtain ⟨w, hw⟩ := m.exists_wordReg h
  obtain ⟨m', hm, ha⟩ := m.advances_setWordReg h (g w)
  exact ⟨m', by simp only [hw, hm, bind, Except.bind], ha⟩

theorem advances_addHl {s : Selector} (h : s.isPair = true) :
    ∃ m', m.execAddHl s = .ok m' ∧ m.Advances [] [] m' := by
  obtain ⟨w, hw⟩ := m.exists_wordReg h
  let p := Arithmetic.addWords m.cpu.regs.hl w m.cpu.flags
  refine ⟨(m.mapRegs fun r => r.setHl p.1).setFlags p.2, ?_, .of_cpu rfl rfl rfl rfl⟩
  simp only [execAddHl, hw, bind, Except.bind, pure, Except.pure, p]

theorem advances_execPush {s : Selector} (h : s.isPair = true) :
    ∃ m' d, m.execPush s = .ok m' ∧ m.Advances [] d m' ∧ d.length = 2 := by
  by_cases hs : s = .af
  · subst hs
    exact ⟨_, _, rfl, m.advances_push _, rfl⟩
  · obtain ⟨w, hw⟩ := m.exists_wordReg h
    refine ⟨_, _, ?_, m.advances_push w, rfl⟩
    simp only [execPush, hw, bind, Except.bind, pure, Except.pure]

theorem advances_execPop {s : Selector} (h : s.isPair = true) :
    ∃ m' d, m.execPop s = .ok m' ∧ m.Advances [] d m' ∧ d.length = 2 := by
  obtain ⟨lo, hi, -, hp⟩ := m.advances_pop
  obtain ⟨m₁, hm, ha⟩ := m.pop.2.advances_setWordReg h m.pop.1
  have ht := hp.then_silent ha
  refine ⟨if s = .af then m₁.setFlags (.ofByte m₁.cpu.regs.f) else m₁,
    pops m.cpu.regs.sp lo hi, ?_, ?_, rfl⟩
  · simp only [execPop, hm, bind, Except.bind, pure, Except.pure]
  · split
    · exact ht.then_cpu rfl rfl rfl rfl
    · exact ht

/-- A straight operation moves past its instruction bytes, whatever else it does. -/
theorem advances_straight {op : BaseOp} (h : op.isValid = true) (hs : op.isStraight = true) :
    ∃ m' b d, m.execBase op = .ok m' ∧ m.Advances b d m' ∧ b.length = op.size ∧
      d.length = op.dataSize false := by
  cases op with
  | halt | stop | di | ei | jump | jumpHl | jumpRelative | call | ret | reti | rst | bitPage =>
    cases hs
  | load dst src => exact m.advances_load h
  | byteOp k src => exact m.advances_byteOp k h
  | loadWord s =>
    obtain ⟨m', b, hm, ha, hb⟩ := m.advances_loadWord (of_decide_eq_true h)
    exact ⟨m', b, [], hm, ha, hb, rfl⟩
  | storeSp =>
    obtain ⟨b, d, ha, hb, hd⟩ := m.advances_storeSp
    exact ⟨_, b, d, rfl, ha, hb, hd⟩
  | inc o =>
    let g (v : UInt8) (fl : Flags) : Except Fault (Option UInt8 × Flags) :=
      .ok (some (Arithmetic.inc m.cpu.rules v fl).1, (Arithmetic.inc m.cpu.rules v fl).2)
    obtain ⟨m', d, hm, ha, hd⟩ := m.advances_modifyOperand h g true fun v fl => ⟨_, _, rfl, rfl⟩
    exact ⟨m', [], d, hm, ha, rfl, hd⟩
  | dec o =>
    let g (v : UInt8) (fl : Flags) : Except Fault (Option UInt8 × Flags) :=
      .ok (some (Arithmetic.dec m.cpu.rules v fl).1, (Arithmetic.dec m.cpu.rules v fl).2)
    obtain ⟨m', d, hm, ha, hd⟩ := m.advances_modifyOperand h g true fun v fl => ⟨_, _, rfl, rfl⟩
    exact ⟨m', [], d, hm, ha, rfl, hd⟩
  | incWord s =>
    obtain ⟨m', hm, ha⟩ := m.advances_mapWordReg h (· + 1)
    exact ⟨m', [], [], hm, ha, rfl, rfl⟩
  | decWord s =>
    obtain ⟨m', hm, ha⟩ := m.advances_mapWordReg h (· - 1)
    exact ⟨m', [], [], hm, ha, rfl, rfl⟩
  | addHl s =>
    obtain ⟨m', hm, ha⟩ := m.advances_addHl h
    exact ⟨m', [], [], hm, ha, rfl, rfl⟩
  | push s =>
    obtain ⟨m', d, hm, ha, hd⟩ := m.advances_execPush h
    exact ⟨m', [], d, hm, ha, rfl, hd⟩
  | pop s =>
    obtain ⟨m', d, hm, ha, hd⟩ := m.advances_execPop h
    exact ⟨m', [], d, hm, ha, rfl, hd⟩
  | loadHlSpOffset | addSpOffset =>
    exact ⟨_, _, [], rfl, m.advances_fetchByte.then_cpu rfl rfl rfl rfl, rfl, rfl⟩
  | nop | loadSpHl | daa | cpl | ccf | scf | rotateA | unknown =>
    exact ⟨_, [], [], rfl, .of_cpu rfl rfl rfl rfl, rfl, rfl⟩

/-! ### Operations that branch or change the control state -/

variable {m} (hr : m.cpu.regs = { r with pc := r.pc + 1 })
include hr

/-- Behind the instruction bytes, counted from the opcode. -/
theorem Advances.pc_from_opcode {m' : Machine σ} (h : m.Advances operands data m') :
    m'.cpu.regs.pc = r.pc + UInt16.ofNat (1 + operands.length) := by
  rw [h.pc, hr, UInt16.ofNat_add, UInt16.add_assoc]
  rfl

theorem Executes.of_straight {m' : Machine σ} (h : op.isStraight = true)
    (ha : m.Advances operands data m') (hb : operands.length = op.size)
    (hd : data.length = op.dataSize false) : m.Executes op r operands data [] m' := by
  have hpc := ha.pc_from_opcode hr
  cases op with
  | halt | stop | di | ei | jump | jumpHl | jumpRelative | call | ret | reti | rst | bitPage =>
    cases h
  | _ => exact .of_proceeds rfl hr ha.toProceeds hb (fun _ => hd) hpc

theorem executes_jump (c : Condition) :
    ∃ operands, m.Executes (.jump c) r operands [] [] (m.execJump c) := by
  obtain ⟨lo, hi, hw, ha⟩ := m.advances_fetchWord
  have hpc : m.fetchWord.2.cpu.regs.pc = r.pc + 3 := ha.pc_from_opcode hr
  have he : m.execJump c =
      if c.holds m.cpu.flags then m.fetchWord.2.goto m.fetchWord.1 else m.fetchWord.2 := rfl
  refine ⟨[lo, hi], ?_⟩
  rw [he]
  split
  · next hc =>
    exact .of_proceeds rfl hr (ha.then_goto _) rfl (fun _ => rfl)
      ⟨lo, hi, rfl, hw.trans (if_pos hc).symm⟩
  · next hc =>
    exact .of_proceeds rfl hr ha.toProceeds rfl (fun _ => rfl)
      ⟨lo, hi, rfl, hpc.trans (if_neg hc).symm⟩

theorem executes_jumpRelative (c : Condition) :
    ∃ operands, m.Executes (.jumpRelative c) r operands [] [] (m.execJumpRelative c) := by
  have ha := m.advances_fetchByte
  have hpc : m.fetchByte.2.cpu.regs.pc = r.pc + 2 := ha.pc_from_opcode hr
  have he : m.execJumpRelative c =
      if c.holds m.cpu.flags then
        m.fetchByte.2.goto (Word.addSigned m.fetchByte.2.cpu.regs.pc m.fetchByte.1)
      else m.fetchByte.2 := rfl
  refine ⟨[m.fetchByte.1], ?_⟩
  rw [he, hpc]
  split
  · next hc =>
    exact .of_proceeds rfl hr (ha.then_goto _) rfl (fun _ => rfl)
      ⟨_, rfl, (if_pos hc).symm⟩
  · next hc =>
    exact .of_proceeds rfl hr ha.toProceeds rfl (fun _ => rfl)
      ⟨_, rfl, hpc.trans (if_neg hc).symm⟩

theorem executes_call (c : Condition) :
    ∃ operands data, m.Executes (.call c) r operands data [] (m.execCall c) := by
  obtain ⟨lo, hi, hw, ha⟩ := m.advances_fetchWord
  have hpc : m.fetchWord.2.cpu.regs.pc = r.pc + 3 := ha.pc_from_opcode hr
  have hsp : m.fetchWord.2.cpu.regs.sp = r.sp := by
    show m.cpu.regs.sp = r.sp
    rw [hr]
  have he : m.execCall c =
      if c.holds m.cpu.flags then
        (m.fetchWord.2.push m.fetchWord.2.cpu.regs.pc).goto m.fetchWord.1
      else m.fetchWord.2 := rfl
  rw [he, hpc]
  split
  · next hc =>
    -- What is pushed is the program counter behind the fetched word.
    have hp := m.fetchWord.2.advances_push (r.pc + 3)
    rw [hsp] at hp
    refine ⟨[lo, hi], pushes r.sp (r.pc + 3), .of_proceeds rfl hr
      ((ha.trans hp (.inl rfl)).then_goto _) rfl ?_ ⟨lo, hi, rfl, ?_⟩⟩
    · exact fun _ => (if_pos hc).symm
    · rw [if_pos hc]
      exact ⟨rfl, hw⟩
  · next hc =>
    refine ⟨[lo, hi], [], .of_proceeds rfl hr ha.toProceeds rfl ?_ ⟨lo, hi, rfl, ?_⟩⟩
    · exact fun _ => (if_neg hc).symm
    · rw [if_neg hc]
      exact ⟨rfl, hpc⟩

theorem executes_ret (c : Condition) :
    ∃ data, m.Executes (.ret c) r [] data [] (m.execRet c) := by
  obtain ⟨lo, hi, hw, ha⟩ := m.advances_pop
  have hsp : m.cpu.regs.sp = r.sp := by rw [hr]
  rw [hsp] at ha
  unfold execRet
  split
  · next hc =>
    refine ⟨pops r.sp lo hi, .of_proceeds rfl hr (ha.then_goto _) rfl ?_ ?_⟩
    · exact fun _ => (if_pos hc).symm
    · exact (if_pos hc).mpr ⟨lo, hi, rfl, hw⟩
  · next hc =>
    refine ⟨[], .of_proceeds rfl hr (.of_cpu rfl rfl rfl) rfl ?_ ?_⟩
    · exact fun _ => (if_neg hc).symm
    · refine (if_neg hc).mpr ⟨rfl, ?_⟩
      rw [hr]

theorem executes_reti : ∃ data, m.Executes .reti r [] data [] m.execReti := by
  obtain ⟨lo, hi, hw, ha⟩ := m.advances_pop
  have hsp : m.cpu.regs.sp = r.sp := by rw [hr]
  rw [hsp] at ha
  refine ⟨pops r.sp lo hi, ?_⟩
  exact
    { performs := by
        rw [List.append_nil]
        exact ha.performs
      counted := ha.counted
      size := rfl
      dataSize _ := rfl
      leads := ⟨lo, hi, rfl, hw⟩
      samples := rfl
      enable := rfl
      running _ _ := ⟨rfl, rfl⟩ }

theorem executes_rst {v : UInt16} (hv : (BaseOp.rst v).isValid = true) :
    ∃ m' data, m.execBase (.rst v) = .ok m' ∧ m.Executes (.rst v) r [] data [] m' := by
  have hsp : m.cpu.regs.sp = r.sp := by rw [hr]
  have hpc : m.cpu.regs.pc = r.pc + 1 := by rw [hr]
  have ha := m.advances_push (r.pc + 1)
  rw [hsp] at ha
  refine ⟨(m.push (r.pc + 1)).goto v, pushes r.sp (r.pc + 1), ?_,
    .of_proceeds rfl hr (ha.then_goto v) rfl (fun _ => rfl) ⟨rfl, rfl⟩⟩
  rw [execBase, execRst, if_pos (of_decide_eq_true hv), hpc]

/-- STOP reads the byte after it; only before a zero byte does it move past that byte and sample the
joypad lines. -/
theorem executes_stop : ∃ operands sample, m.Executes .stop r operands [] sample m.execStop := by
  have hpc : m.cpu.regs.pc = r.pc + 1 := by rw [hr]
  have hp : Performs m.bus (fetches (r.pc + 1) [(m.read (r.pc + 1)).1]) (m.read (r.pc + 1)).2.bus :=
    Performs.one_read m.bus (r.pc + 1)
  have he : m.execStop = if (m.read m.cpu.regs.pc).1 = 0 then _ else _ := rfl
  rw [he, hpc]
  -- The byte is read either way, but only a zero is taken as part of the instruction.
  by_cases hn : (m.read (r.pc + 1)).1 = 0
  · rw [hn] at hp
    rw [if_pos hn]
    refine ⟨[0], [.read 0xFF00 (Bus.read (m.read (r.pc + 1)).2.bus 0xFF00).1], ?_⟩
    exact
      { performs := by
          rw [List.append_nil]
          exact hp.append (.one_read _ _)
        counted := rfl
        size := rfl
        dataSize _ := rfl
        leads := ⟨0, rfl, UInt16.add_assoc ..⟩
        samples := ⟨_, rfl⟩
        enable := rfl
        running _ h := absurd rfl h }
  · rw [if_neg hn]
    refine ⟨[(m.read (r.pc + 1)).1], [], ?_⟩
    exact
      { performs := by
          rw [List.append_nil, List.append_nil]
          exact hp
        counted := rfl
        size := rfl
        dataSize _ := rfl
        leads := ⟨_, rfl, hpc.trans (if_neg hn).symm⟩
        samples := by
          unfold BaseOp.Samples
          rw [if_neg]
          rintro ⟨-, hz⟩
          exact hn (List.head_eq_of_cons_eq hz)
        enable := rfl
        running _ h := absurd rfl h }

/-- HALT, DI and EI only change the control state. -/
theorem executes_control {c : Cpu} (hs : op = .halt ∨ op = .di ∨ op = .ei)
    (hc : c.regs = m.cpu.regs) (ha : c.accesses = m.cpu.accesses)
    (he : (c.ime, c.request) = op.enable m.cpu.ime m.cpu.request)
    (hh : op ≠ .halt → c.halted = m.cpu.halted) (ht : c.stopped = m.cpu.stopped) :
    m.Executes op r [] [] [] { m with cpu := c } := by
  have hpc : c.regs.pc = r.pc + 1 := by rw [hc, hr]
  rcases hs with rfl | rfl | rfl <;>
    exact ⟨.nil _, ha, rfl, fun _ => rfl, hpc, rfl, he, fun h _ => ⟨hh h, ht⟩⟩

/-- Every valid operation is executed. -/
theorem exists_executes (hv : op.isValid = true) (hb : op ≠ .bitPage) :
    ∃ m' operands data sample, m.execBase op = .ok m' ∧
      m.Executes op r operands data sample m' := by
  by_cases hs : op.isStraight = true
  · obtain ⟨m', b, d, hm, ha, hb, hd⟩ := m.advances_straight hv hs
    exact ⟨m', b, d, [], hm, .of_straight hr hs ha hb hd⟩
  · cases op with
    | halt =>
      exact ⟨_, [], [], [], rfl,
        executes_control hr (.inl rfl) rfl rfl rfl (fun h => absurd rfl h) rfl⟩
    | di =>
      exact ⟨_, [], [], [], rfl,
        executes_control hr (.inr (.inl rfl)) rfl rfl rfl (fun _ => rfl) rfl⟩
    | ei =>
      exact ⟨_, [], [], [], rfl,
        executes_control hr (.inr (.inr rfl)) rfl rfl rfl (fun _ => rfl) rfl⟩
    | stop =>
      obtain ⟨b, s, he⟩ := executes_stop hr
      exact ⟨_, b, [], s, rfl, he⟩
    | jump c =>
      obtain ⟨b, he⟩ := executes_jump hr c
      exact ⟨_, b, [], [], rfl, he⟩
    | jumpHl =>
      refine ⟨_, [], [], [], rfl, .of_proceeds rfl hr (.of_cpu rfl rfl rfl) rfl (fun _ => rfl) ?_⟩
      show m.cpu.regs.hl = r.hl
      rw [hr]
      rfl
    | jumpRelative c =>
      obtain ⟨b, he⟩ := executes_jumpRelative hr c
      exact ⟨_, b, [], [], rfl, he⟩
    | call c =>
      obtain ⟨b, d, he⟩ := executes_call hr c
      exact ⟨_, b, d, [], rfl, he⟩
    | ret c =>
      obtain ⟨d, he⟩ := executes_ret hr c
      exact ⟨_, [], d, [], rfl, he⟩
    | reti =>
      obtain ⟨d, he⟩ := executes_reti hr
      exact ⟨_, [], d, [], rfl, he⟩
    | rst v =>
      obtain ⟨m', d, hm, he⟩ := executes_rst hr hv
      exact ⟨m', [], d, [], hm, he⟩
    | bitPage => exact absurd rfl hb
    | _ => exact absurd rfl hs

omit hr

/-- Every valid operation of the second page is executed. -/
theorem exists_execBit (m : Machine σ) {op : BitOp} (hv : op.isValid = true) :
    ∃ m' data, m.execBit op = .ok m' ∧ m.Advances [] data m' ∧ data.length = op.dataSize := by
  cases op with
  | shift k o =>
    exact m.advances_modifyOperand hv (BitOp.shift k o).apply true fun v fl => ⟨_, _, rfl, rfl⟩
  | test n o =>
    obtain ⟨hn, ho⟩ := Bool.and_eq_true_iff.1 hv
    refine m.advances_modifyOperand ho (BitOp.test n o).apply false fun v fl => ?_
    exact ⟨_, _, if_pos (of_decide_eq_true hn), rfl⟩
  | reset n o =>
    obtain ⟨hn, ho⟩ := Bool.and_eq_true_iff.1 hv
    refine m.advances_modifyOperand ho (BitOp.reset n o).apply true fun v fl => ?_
    exact ⟨_, _, if_pos (of_decide_eq_true hn), rfl⟩
  | set n o =>
    obtain ⟨hn, ho⟩ := Bool.and_eq_true_iff.1 hv
    refine m.advances_modifyOperand ho (BitOp.set n o).apply true fun v fl => ?_
    exact ⟨_, _, if_pos (of_decide_eq_true hn), rfl⟩

end Machine

end DotMatrix
