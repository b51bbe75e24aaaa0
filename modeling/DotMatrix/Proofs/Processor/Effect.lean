import DotMatrix.Processor.Machine
import DotMatrix.Proofs.Processor.Encoding
import DotMatrix.Proofs.Processor.Trace

/-!
# The accesses of helpers

What the parts of an instruction do to the machine: which accesses they make, and in which order.

* `m.Proceeds bytes data m'` says that `m'` comes from `m` by fetching `bytes` and then making the
  accesses `data`, all of them counted, and by changes of registers and flags.
* `m.Advances bytes data m'` says also that the program counter has moved past the bytes.
* Two such parts make one (`Advances.proceeds`, `Advances.trans`), unless the second fetches bytes
  after the first has made other accesses.
-/

namespace DotMatrix

/-- A processor without what helpers change: the registers, the flags and the count. -/
def Cpu.control (c : Cpu) : Cpu := { c with regs := {}, flags := {}, accesses := 0 }

theorem Cpu.fields_of_control {c c' : Cpu} (h : c'.control = c.control) :
    c'.ime = c.ime ∧ c'.request = c.request ∧ c'.halted = c.halted ∧ c'.stopped = c.stopped := by
  have hi : c'.control.ime = c.control.ime := by rw [h]
  have hq : c'.control.request = c.control.request := by rw [h]
  have hh : c'.control.halted = c.control.halted := by rw [h]
  have hs : c'.control.stopped = c.control.stopped := by rw [h]
  exact ⟨hi, hq, hh, hs⟩

theorem Cpu.rules_of_control {c c' : Cpu} (h : c'.control = c.control) : c'.rules = c.rules := by
  have hr : c'.control.rules = c.control.rules := by rw [h]
  exact hr

namespace Machine

variable {σ : Type} [Bus σ]

/-- From `m` to `m'` by counted accesses, first to instruction bytes and then to data, and by
changes of registers and flags. -/
structure Proceeds (m : Machine σ) (bytes : List UInt8) (data : List Access) (m' : Machine σ) :
    Prop where
  performs : Performs m.bus (fetches m.cpu.regs.pc bytes ++ data) m'.bus
  counted : m'.cpu.accesses = m.cpu.accesses + (bytes.length + data.length)
  control : m'.cpu.control = m.cpu.control

/-- In addition, the program counter moves past the bytes. -/
structure Advances (m : Machine σ) (bytes : List UInt8) (data : List Access) (m' : Machine σ) : Prop
    extends m.Proceeds bytes data m' where
  pc : m'.cpu.regs.pc = m.cpu.regs.pc + UInt16.ofNat bytes.length

variable {m m' m'' : Machine σ} {b b' : List UInt8} {d d' : List Access}

/-- Changes of registers and flags make no access. -/
theorem Proceeds.of_cpu (hb : m'.bus = m.bus) (ha : m'.cpu.accesses = m.cpu.accesses)
    (hc : m'.cpu.control = m.cpu.control) : m.Proceeds [] [] m' where
  performs := by
    rw [hb]
    exact .nil _
  counted := ha
  control := hc

/-- Changes of flags and of registers other than the program counter make no access. -/
theorem Advances.of_cpu (hb : m'.bus = m.bus) (ha : m'.cpu.accesses = m.cpu.accesses)
    (hc : m'.cpu.control = m.cpu.control) (hp : m'.cpu.regs.pc = m.cpu.regs.pc) :
    m.Advances [] [] m' where
  toProceeds := .of_cpu hb ha hc
  pc := by
    rw [hp]
    exact (UInt16.add_zero _).symm

/-- Two parts in a row, the second of which fetches nothing or comes before all data. -/
theorem Advances.proceeds (h : m.Advances b d m') (h' : m'.Proceeds b' d' m'')
    (hd : d = [] ∨ b' = []) : m.Proceeds (b ++ b') (d ++ d') m'' where
  performs := by
    have hp := h.performs.append h'.performs
    -- The second part fetches from where the first has left the program counter.
    rw [h.pc] at hp
    rcases hd with rfl | rfl
    · rw [fetches_append, List.append_assoc]
      rwa [List.append_nil] at hp
    · rwa [fetches_nil, List.nil_append, List.append_assoc, ← List.append_nil b] at hp
  counted := by
    rw [h'.counted, h.counted, List.length_append, List.length_append]
    omega
  control := h'.control.trans h.control

theorem Advances.trans (h : m.Advances b d m') (h' : m'.Advances b' d' m'')
    (hd : d = [] ∨ b' = []) : m.Advances (b ++ b') (d ++ d') m'' where
  toProceeds := h.proceeds h'.toProceeds hd
  pc := by
    rw [h'.pc, h.pc, List.length_append, UInt16.ofNat_add, UInt16.add_assoc]

/-- A part without accesses may follow. -/
theorem Advances.then_silent (h : m.Advances b d m') (h' : m'.Advances [] [] m'') :
    m.Advances b d m'' := by
  have ht := h.trans h' (.inr rfl)
  rwa [List.append_nil, List.append_nil] at ht

/-- Changes of flags and of registers other than the program counter may follow. -/
theorem Advances.then_cpu (h : m.Advances b d m') (hb : m''.bus = m'.bus)
    (ha : m''.cpu.accesses = m'.cpu.accesses) (hc : m''.cpu.control = m'.cpu.control)
    (hp : m''.cpu.regs.pc = m'.cpu.regs.pc) : m.Advances b d m'' :=
  h.then_silent (.of_cpu hb ha hc hp)

/-- A jump may follow. -/
theorem Advances.then_goto (h : m.Advances b d m') (pc : UInt16) : m.Proceeds b d (m'.goto pc) := by
  have hg : m'.Proceeds [] [] (m'.goto pc) := .of_cpu rfl rfl rfl
  have ht := h.proceeds hg (.inr rfl)
  rwa [List.append_nil, List.append_nil] at ht

/-! ### Accesses -/

variable (m)

theorem advances_read (a : UInt16) : m.Advances [] [.read a (m.read a).1] (m.read a).2 where
  performs := Performs.one_read m.bus a
  counted := rfl
  control := rfl
  pc := (UInt16.add_zero _).symm

theorem advances_write (a : UInt16) (v : UInt8) : m.Advances [] [.write a v] (m.write a v) where
  performs := Performs.one_write m.bus a v
  counted := rfl
  control := rfl
  pc := (UInt16.add_zero _).symm

theorem advances_fetchByte : m.Advances [m.fetchByte.1] [] m.fetchByte.2 where
  performs := Performs.one_read m.bus m.cpu.regs.pc
  counted := rfl
  control := rfl
  pc := rfl

/-- A fetched word comes from two bytes, the low one first. -/
theorem advances_fetchWord :
    ∃ lo hi, m.fetchWord.1 = Word.ofBytes hi lo ∧ m.Advances [lo, hi] [] m.fetchWord.2 :=
  ⟨_, _, rfl, m.advances_fetchByte.trans m.fetchByte.2.advances_fetchByte (.inl rfl)⟩

theorem advances_push (w : UInt16) : m.Advances [] (pushes m.cpu.regs.sp w) (m.push w) where
  performs := by
    have hs : m.cpu.regs.sp - 2 = m.cpu.regs.sp - 1 - 1 := by
      rw [UInt16.sub_eq_add_neg, UInt16.sub_eq_add_neg, UInt16.sub_eq_add_neg, UInt16.add_assoc]
      rfl
    rw [pushes, hs]
    exact .write _ _ (.one_write _ _ _)
  counted := rfl
  control := rfl
  pc := (UInt16.add_zero _).symm

/-- A popped word comes from two bytes, the low one first. -/
theorem advances_pop :
    ∃ lo hi, m.pop.1 = Word.ofBytes hi lo ∧ m.Advances [] (pops m.cpu.regs.sp lo hi) m.pop.2 := by
  refine ⟨_, _, rfl, ?_⟩
  exact
    { performs := .read _ (.one_read _ _)
      counted := rfl
      control := rfl
      pc := (UInt16.add_zero _).symm }

end Machine

/-! ### Registers -/

namespace Registers

variable (r : Registers) {s : Selector}

theorem exists_byte (h : s.isByte = true) : ∃ v, r.byte s = .ok v := by
  cases s <;> first | exact ⟨_, rfl⟩ | cases h

theorem exists_word (h : s.isPair = true) : ∃ w, r.word s = .ok w := by
  cases s <;> first | exact ⟨_, rfl⟩ | cases h

theorem exists_setByte (h : s.isByte = true) (v : UInt8) :
    ∃ r', r.setByte s v = .ok r' ∧ r'.pc = r.pc := by
  cases s <;> first | exact ⟨_, rfl, rfl⟩ | cases h

theorem exists_setWord (h : s.isPair = true) (w : UInt16) :
    ∃ r', r.setWord s w = .ok r' ∧ r'.pc = r.pc := by
  cases s <;> first | exact ⟨_, rfl, rfl⟩ | cases h

end Registers

namespace Machine

variable {σ : Type} [Bus σ] (m : Machine σ) {m' : Machine σ} {s : Selector} {o : Operand}

omit [Bus σ] in
theorem exists_byteReg (h : s.isByte = true) : ∃ v, m.byteReg s = .ok v := by
  obtain ⟨v, hv⟩ := m.cpu.regs.exists_byte h
  exact ⟨v, by rw [byteReg, hv, Fault.ofWidth_ok]⟩

omit [Bus σ] in
theorem exists_wordReg (h : s.isPair = true) : ∃ w, m.wordReg s = .ok w := by
  obtain ⟨w, hw⟩ := m.cpu.regs.exists_word h
  exact ⟨w, by rw [wordReg, hw, Fault.ofWidth_ok]⟩

theorem advances_setByteReg (h : s.isByte = true) (v : UInt8) :
    ∃ m', m.setByteReg s v = .ok m' ∧ m.Advances [] [] m' := by
  obtain ⟨r, hr, hp⟩ := m.cpu.regs.exists_setByte h v
  refine ⟨{ m with cpu := { m.cpu with regs := r } }, ?_, .of_cpu rfl rfl rfl hp⟩
  rw [setByteReg, hr]
  rfl

theorem advances_setWordReg (h : s.isPair = true) (w : UInt16) :
    ∃ m', m.setWordReg s w = .ok m' ∧ m.Advances [] [] m' := by
  obtain ⟨r, hr, hp⟩ := m.cpu.regs.exists_setWord h w
  refine ⟨{ m with cpu := { m.cpu with regs := r } }, ?_, .of_cpu rfl rfl rfl hp⟩
  rw [setWordReg, hr]
  rfl

/-! ### Operands -/

/-- Finding an operand in memory takes its instruction bytes. -/
theorem advances_address (h : o.isReadable = true) (hd : o.dataSize = 1) :
    ∃ a m' b, m.address o = .ok (a, m') ∧ m.Advances b [] m' ∧ b.length = o.size := by
  cases o with
  | register s => cases hd
  | immediate => cases hd
  | indirect s =>
    obtain ⟨w, hw⟩ := m.exists_wordReg h
    refine ⟨w, m, [], ?_, .of_cpu rfl rfl rfl rfl, rfl⟩
    rw [address, hw]
    rfl
  | indirectInc => exact ⟨_, _, [], rfl, .of_cpu rfl rfl rfl rfl, rfl⟩
  | indirectDec => exact ⟨_, _, [], rfl, .of_cpu rfl rfl rfl rfl, rfl⟩
  | absolute =>
    obtain ⟨lo, hi, -, hf⟩ := m.advances_fetchWord
    exact ⟨_, _, [lo, hi], rfl, hf, rfl⟩
  | highImmediate => exact ⟨_, _, _, rfl, m.advances_fetchByte, rfl⟩
  | highC => exact ⟨_, _, [], rfl, .of_cpu rfl rfl rfl rfl, rfl⟩

theorem readOperand_of_address {a : UInt16} (hd : o.dataSize = 1) (ha : m.address o = .ok (a, m')) :
    m.readOperand o = .ok (m'.read a) := by
  cases o with
  | register _ | immediate => cases hd
  | _ => simp only [readOperand, ha, bind, Except.bind, pure, Except.pure]

theorem writeOperand_of_address {a : UInt16} (hd : o.dataSize = 1) (ha : m.address o = .ok (a, m'))
    (v : UInt8) : m.writeOperand o v = .ok (m'.write a v) := by
  cases o with
  | register _ | immediate => cases hd
  | _ => simp only [writeOperand, ha, bind, Except.bind, pure, Except.pure]

/-- Reading an operand takes its instruction bytes, and then its accesses to memory. -/
theorem advances_readOperand (h : o.isReadable = true) :
    ∃ v m' b d, m.readOperand o = .ok (v, m') ∧ m.Advances b d m' ∧
      b.length = o.size ∧ d.length = o.dataSize := by
  by_cases hd : o.dataSize = 1
  · -- In memory: first the address, then the byte behind it.
    obtain ⟨a, m', b, ha, hm, hb⟩ := m.advances_address h hd
    have ht := hm.trans (m'.advances_read a) (.inl rfl)
    rw [List.append_nil, List.nil_append] at ht
    exact ⟨_, _, b, _, m.readOperand_of_address hd ha, ht, hb, hd.symm⟩
  · cases o with
    | register s =>
      obtain ⟨v, hv⟩ := m.exists_byteReg h
      refine ⟨v, m, [], [], ?_, .of_cpu rfl rfl rfl rfl, rfl, rfl⟩
      rw [readOperand, hv]
      rfl
    | immediate => exact ⟨_, _, _, [], rfl, m.advances_fetchByte, rfl, rfl⟩
    | _ => exact absurd rfl hd

/-- Writing an operand takes its instruction bytes, and then its accesses to memory. -/
theorem advances_writeOperand (h : o.isWritable = true) (v : UInt8) :
    ∃ m' b d, m.writeOperand o v = .ok m' ∧ m.Advances b d m' ∧
      b.length = o.size ∧ d.length = o.dataSize := by
  by_cases hd : o.dataSize = 1
  · obtain ⟨a, m', b, ha, hm, hb⟩ := m.advances_address (Operand.isReadable_of_isWritable h) hd
    have ht := hm.trans (m'.advances_write a v) (.inl rfl)
    rw [List.append_nil, List.nil_append] at ht
    exact ⟨_, b, _, m.writeOperand_of_address hd ha v, ht, hb, hd.symm⟩
  · cases o with
    | register s =>
      obtain ⟨m', hm, ha⟩ := m.advances_setByteReg h v
      exact ⟨m', [], [], hm, ha, rfl, rfl⟩
    | immediate => cases h
    | _ => exact absurd rfl hd

/-- Modifying an operand reads it and, if there is a result, writes it. -/
theorem advances_modifyOperand (h : o.isModifiable = true)
    (g : UInt8 → Flags → Except Fault (Option UInt8 × Flags)) (writes : Bool)
    (hg : ∀ v fl, ∃ result fl', g v fl = .ok (result, fl') ∧ result.isSome = writes) :
    ∃ m' d, m.modifyOperand o g = .ok m' ∧ m.Advances [] d m' ∧
      d.length = if writes then 2 * o.dataSize else o.dataSize := by
  cases o with
  | register s =>
    obtain ⟨v, hv⟩ := m.exists_byteReg h
    obtain ⟨result, fl, hr, hw⟩ := hg v m.cpu.flags
    have hf : m.Advances [] [] (m.setFlags fl) := .of_cpu rfl rfl rfl rfl
    cases result with
    | none =>
      subst hw
      refine ⟨m.setFlags fl, [], ?_, hf, rfl⟩
      simp only [modifyOperand, hv, hr, bind, Except.bind, pure, Except.pure]
    | some u =>
      subst hw
      obtain ⟨m', hm, ha⟩ := (m.setFlags fl).advances_setByteReg h u
      refine ⟨m', [], ?_, hf.trans ha (.inl rfl), rfl⟩
      simp only [modifyOperand, hv, hr, hm, bind, Except.bind]
  | indirect s =>
    obtain ⟨a, ha⟩ := m.exists_wordReg h
    obtain ⟨result, fl, hr, hw⟩ := hg (m.read a).1 (m.read a).2.cpu.flags
    have hf : m.Advances [] [.read a (m.read a).1] ((m.read a).2.setFlags fl) :=
      (m.advances_read a).then_cpu rfl rfl rfl rfl
    cases result with
    | none =>
      subst hw
      refine ⟨(m.read a).2.setFlags fl, _, ?_, hf, rfl⟩
      simp only [modifyOperand, ha, hr, bind, Except.bind, pure, Except.pure]
    | some u =>
      subst hw
      refine ⟨((m.read a).2.setFlags fl).write a u, _, ?_,
        hf.trans (advances_write _ a u) (.inr rfl), rfl⟩
      simp only [modifyOperand, ha, hr, bind, Except.bind, pure, Except.pure]
  | _ => cases h

end Machine

end DotMatrix
