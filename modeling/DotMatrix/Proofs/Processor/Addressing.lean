import DotMatrix.Proofs.Processor.Fetch

/-!
# Forms of an operation

An operation on a byte has several forms, which find the byte in a register, in memory at HL, or
behind the opcode. They compute the same.

* `InPlace` are the operations that modify their operand, `Code.inPlace?` reads one off a code.
* `Begins.byteOp` says what the step of an operation on A does, by how it finds its byte;
  `Begins.inPlace_register` and `Begins.inPlace_indirect` are the counterparts for the operations in
  place.
* `forms_agree` compares the forms.
-/

namespace DotMatrix

namespace Registers

variable (r : Registers)

theorem byte_setPc (pc : UInt16) (s : Selector) :
    ({ r with pc := pc } : Registers).byte s = r.byte s := by
  cases s <;> rfl

theorem byte_setF (v : UInt8) {s : Selector} (h : s ≠ .f) :
    ({ r with f := v } : Registers).byte s = r.byte s := by
  cases s <;> first | rfl | exact absurd rfl h

variable {r} in
theorem byte_setByte {r' : Registers} {s : Selector} {v : UInt8} (h : r.setByte s v = .ok r')
    (hs : s ≠ .f) : r'.byte s = .ok v := by
  cases s <;> first | (cases h; rfl) | exact absurd rfl hs | cases h

end Registers

/-! ### Operations in place -/

/-- The operations that modify an operand in place. -/
inductive InPlace
  | inc
  | dec
  | shift (k : Shift)
  | test (n : Nat)
  | reset (n : Nat)
  | set (n : Nat)
  deriving DecidableEq, Repr

namespace InPlace

/-- The byte that an operation makes of another one, if it makes any, and the flags. -/
def apply (k : InPlace) (rules : FlagRules) (v : UInt8) (fl : Flags) : Option UInt8 × Flags :=
  match k with
  | inc => (some (Arithmetic.inc rules v fl).1, (Arithmetic.inc rules v fl).2)
  | dec => (some (Arithmetic.dec rules v fl).1, (Arithmetic.dec rules v fl).2)
  | shift k => (some (k.apply v true fl).1, (k.apply v true fl).2)
  | test n =>
    (none, { fl with zero := !v.toNat.testBit n, subtract := false, halfCarry := true })
  | reset n => (some (v &&& ~~~BitOp.mask n), fl)
  | set n => (some (v ||| BitOp.mask n), fl)

/-- Whether an operation is one of the second page. -/
def isBit : InPlace → Bool
  | inc | dec => false
  | _ => true

end InPlace

/-- The operation in place of a first-page operation, if it is one, and its operand. -/
def BaseOp.inPlace? : BaseOp → Option (InPlace × Operand)
  | inc o => some (.inc, o)
  | dec o => some (.dec, o)
  | _ => none

/-- The operation in place of a second-page operation. -/
def BitOp.inPlace : BitOp → InPlace
  | shift k _ => .shift k
  | test n _ => .test n
  | reset n _ => .reset n
  | set n _ => .set n

theorem BaseOp.isBit_of_inPlace {op : BaseOp} {k : InPlace} {o : Operand}
    (h : op.inPlace? = some (k, o)) : k.isBit = false := by
  cases op with
  | inc | dec =>
    cases h
    rfl
  | _ => cases h

theorem BitOp.isBit_inPlace (op : BitOp) : op.inPlace.isBit = true := by
  cases op <;> rfl

theorem BitOp.apply_eq {op : BitOp} (h : op.isValid = true) (rules : FlagRules) (v : UInt8)
    (fl : Flags) : op.apply v fl = .ok (op.inPlace.apply rules v fl) := by
  cases op with
  | shift k o => rfl
  | test n o | reset n o | set n o =>
    exact if_pos (of_decide_eq_true (Bool.and_eq_true_iff.1 h).1)

namespace Code

/-- The operation in place that a code stands for, if it is one, and its operand. -/
def inPlace? : Code → Option (InPlace × Operand)
  | base b => (BaseOp.decode b).inPlace?
  | bit b => some ((BitOp.decode b).inPlace, (BitOp.decode b).operand)

/-- The operand is one that can be modified, and never F. -/
theorem operand_of_inPlace (code : Code) :
    ∀ p ∈ code.inPlace?, p.2.isModifiable = true ∧ p.2 ≠ .register .f := by
  cases code with
  | base b =>
    revert b
    refine Byte.forall_of_fin ?_
    decide +kernel
  | bit b =>
    revert b
    refine Byte.forall_of_fin ?_
    decide +kernel

theorem length_bytes_of_inPlace {code : Code} {k : InPlace} {o : Operand}
    (h : code.inPlace? = some (k, o)) : code.bytes.length = 1 + k.isBit.toNat := by
  cases code with
  | base b =>
    rw [BaseOp.isBit_of_inPlace h]
    rfl
  | bit b =>
    obtain ⟨rfl, -⟩ := Prod.mk.inj (Option.some.inj h)
    rw [BitOp.isBit_inPlace]
    rfl

end Code

theorem ByteOp.apply_congr (op : ByteOp) {rules : FlagRules} {src src' : Operand}
    (h : rules.basis src = rules.basis src') (a v : UInt8) (fl : Flags) :
    op.apply rules src a v fl = op.apply rules src' a v fl := by
  cases op <;> simp only [ByteOp.apply, h]

namespace Machine

variable {σ : Type} [Bus σ]

/-- A code that stands for an operation in place executes it. -/
theorem execCode_of_inPlace {code : Code} {k : InPlace} {o : Operand}
    (h : code.inPlace? = some (k, o)) (m : Machine σ) :
    m.execCode code = m.modifyOperand o fun v fl => .ok (k.apply m.cpu.rules v fl) := by
  cases code with
  | base b =>
    have h : (BaseOp.decode b).inPlace? = some (k, o) := h
    rw [execCode]
    cases hd : BaseOp.decode b with
    | inc | dec =>
      rw [hd] at h
      cases h
      rfl
    | _ =>
      rw [hd] at h
      cases h
  | bit b =>
    obtain ⟨rfl, rfl⟩ := Prod.mk.inj (Option.some.inj h)
    have ha : (BitOp.decode b).apply =
        fun v fl => .ok ((BitOp.decode b).inPlace.apply m.cpu.rules v fl) := by
      funext v fl
      exact BitOp.apply_eq (BitOp.isValid_decode b) m.cpu.rules v fl
    rw [execCode, execBit, ha]

/-! ### Operations on A -/

section

variable {m m₀ m₁ : Machine (Traced σ)} {code : Code} {op : ByteOp} {src : Operand}

/-- The step of an operation on A and a byte that it finds without a change of A and the flags. -/
theorem Begins.byteOp {v : UInt8} {operands : List UInt8} {data : List Access}
    (h : m.Begins code m₀) (hd : code.operation = .byteOp op src)
    (hr : m₀.readOperand src = .ok (v, m₁)) (hp : m₀.Proceeds operands data m₁)
    (ha : m₁.cpu.regs.a = m₀.cpu.regs.a) (hf : m₁.cpu.flags = m₀.cpu.flags) :
    ∃ m', m.StepsBy (code.bytes ++ operands) data (4 * (1 + operands.length + data.length)) m' ∧
      let r := op.apply m.cpu.rules src m.cpu.regs.a v (.ofByte m.cpu.regs.f)
      m'.cpu.regs.a = r.1 ∧ m'.cpu.regs.f = r.2.toByte := by
  have hc : m₁.cpu.rules = m.cpu.rules := by rw [Cpu.rules_of_control hp.control, h.cpu]
  have ha : m₁.cpu.regs.a = m.cpu.regs.a := by rw [ha, h.cpu]
  have hf : m₁.cpu.flags = .ofByte m.cpu.regs.f := by rw [hf, h.cpu]
  let r := op.apply m₁.cpu.rules src m₁.cpu.regs.a v m₁.cpu.flags
  have he : m₀.execCode code = .ok (m₁.setResult r) := by
    rw [execCode_of_operation hd nofun]
    simp only [execBase, hr, bind, Except.bind, pure, Except.pure, r]
  obtain ⟨m', hs, -, hm⟩ := h.exists_stepsBy he ⟨hp.performs, hp.counted, hp.control⟩
  rw [length_bytes_of_operation hd nofun] at hs
  refine ⟨m', hs, ?_⟩
  rw [hm, ← hc, ← ha, ← hf]
  exact ⟨rfl, rfl⟩

theorem Begins.byteOp_register {s : Selector} (h : m.Begins code m₀)
    (hd : code.operation = .byteOp op (.register s)) :
    ∃ v m', m.cpu.regs.byte s = .ok v ∧ m.StepsBy code.bytes [] 4 m' ∧
      let r := op.apply m.cpu.rules (.register s) m.cpu.regs.a v (.ofByte m.cpu.regs.f)
      m'.cpu.regs.a = r.1 ∧ m'.cpu.regs.f = r.2.toByte := by
  have hs : s.isByte = true := by
    have hv := code.isValid_operation
    rwa [hd] at hv
  obtain ⟨v, hv⟩ := m.cpu.regs.exists_byte hs
  refine ⟨v, ?_⟩
  have hr : m₀.readOperand (.register s) = .ok (v, m₀) := by
    have hb : m₀.byteReg s = .ok v := by
      rw [byteReg, h.cpu, Registers.byte_setPc, hv, Fault.ofWidth_ok]
    rw [readOperand, hb]
    rfl
  obtain ⟨m', hs, hm⟩ := h.byteOp hd hr (.of_cpu rfl rfl rfl) rfl rfl
  rw [List.append_nil] at hs
  exact ⟨m', hv, hs, hm⟩

theorem Begins.byteOp_indirect (h : m.Begins code m₀)
    (hd : code.operation = .byteOp op (.indirect .hl)) :
    ∃ v m', m.StepsBy code.bytes [.read m.cpu.regs.hl v] 8 m' ∧
      let r := op.apply m.cpu.rules (.indirect .hl) m.cpu.regs.a v (.ofByte m.cpu.regs.f)
      m'.cpu.regs.a = r.1 ∧ m'.cpu.regs.f = r.2.toByte := by
  have hl : m₀.cpu.regs.hl = m.cpu.regs.hl := by
    rw [h.cpu]
    rfl
  have hr : m₀.readOperand (.indirect .hl) = .ok (m₀.read m.cpu.regs.hl) := by
    rw [← hl]
    rfl
  obtain ⟨m', hs, hm⟩ := h.byteOp hd hr (m₀.advances_read _).toProceeds rfl rfl
  rw [List.append_nil] at hs
  exact ⟨_, m', hs, hm⟩

theorem Begins.byteOp_immediate (h : m.Begins code m₀)
    (hd : code.operation = .byteOp op .immediate) :
    ∃ v m', m.StepsBy (code.bytes ++ [v]) [] 8 m' ∧
      let r := op.apply m.cpu.rules .immediate m.cpu.regs.a v (.ofByte m.cpu.regs.f)
      m'.cpu.regs.a = r.1 ∧ m'.cpu.regs.f = r.2.toByte :=
  ⟨_, h.byteOp hd rfl m₀.advances_fetchByte.toProceeds rfl rfl⟩

end

/-! ### Operations on an operand -/

section

variable (m : Machine σ) {s : Selector} (g : UInt8 → Flags → Option UInt8 × Flags)

omit [Bus σ] in
theorem setByteReg_of_setByte {r : Registers} {v : UInt8} (h : m.cpu.regs.setByte s v = .ok r) :
    m.setByteReg s v = .ok { m with cpu := { m.cpu with regs := r } } := by
  rw [setByteReg, h]
  rfl

/-- What becomes of a register that is modified: its value is the result, if there is one. -/
theorem exists_modifyOperand_register {v : UInt8} (hv : m.cpu.regs.byte s = .ok v)
    (hb : s.isByte = true) (hs : s ≠ .f) :
    ∃ r, r.byte s = .ok ((g v m.cpu.flags).1.getD v) ∧
      m.modifyOperand (.register s) (fun v fl => .ok (g v fl)) =
        .ok { m with cpu := { m.cpu with regs := r, flags := (g v m.cpu.flags).2 } } := by
  have hv' : m.byteReg s = .ok v := by rw [byteReg, hv, Fault.ofWidth_ok]
  simp only [modifyOperand, hv', bind, Except.bind]
  obtain ⟨result, fl⟩ := g v m.cpu.flags
  cases result with
  | none => exact ⟨m.cpu.regs, hv, rfl⟩
  | some u =>
    obtain ⟨r, hr, -⟩ := m.cpu.regs.exists_setByte hb u
    exact ⟨r, Registers.byte_setByte hr hs, (m.setFlags fl).setByteReg_of_setByte hr⟩

/-- Memory that is modified is read once, and the result, if there is one, is written back once. -/
theorem exists_modifyOperand_indirect {a : UInt16} (ha : m.wordReg s = .ok a) :
    let r := g (m.read a).1 m.cpu.flags
    ∃ m', m.modifyOperand (.indirect s) (fun v fl => .ok (g v fl)) = .ok m' ∧
      m.Advances [] (.read a (m.read a).1 :: (r.1.map (Access.write a)).toList) m' ∧
      m'.cpu.regs = m.cpu.regs ∧ m'.cpu.flags = r.2 := by
  intro r
  have hr : m.Advances [] [.read a (m.read a).1] ((m.read a).2.setFlags r.2) :=
    (m.advances_read a).then_cpu rfl rfl rfl rfl
  have hf : (m.read a).2.cpu.flags = m.cpu.flags := rfl
  simp only [modifyOperand, ha, hf, bind, Except.bind]
  cases hres : (g (m.read a).1 m.cpu.flags).1 with
  | none => exact ⟨_, rfl, hr, rfl, rfl⟩
  | some u => exact ⟨_, rfl, hr.trans (advances_write _ a u) (.inr rfl), rfl, rfl⟩

end

section

variable {m m₀ : Machine (Traced σ)} {code : Code} {k : InPlace}

/-- The step of an operation in place on a register. -/
theorem Begins.inPlace_register {s : Selector} (h : m.Begins code m₀)
    (hk : code.inPlace? = some (k, .register s)) :
    ∃ v m', m.cpu.regs.byte s = .ok v ∧ m.StepsBy code.bytes [] (4 * code.bytes.length) m' ∧
      let r := k.apply m.cpu.rules v (.ofByte m.cpu.regs.f)
      m'.cpu.regs.byte s = .ok (r.1.getD v) ∧ m'.cpu.regs.f = r.2.toByte := by
  obtain ⟨hb, hf⟩ := code.operand_of_inPlace _ hk
  have hf : s ≠ .f := fun hs => hf (by rw [hs])
  have hr : m₀.cpu.rules = m.cpu.rules := by rw [h.cpu]
  have hfl : m₀.cpu.flags = .ofByte m.cpu.regs.f := by rw [h.cpu]
  obtain ⟨v, hv⟩ := m.cpu.regs.exists_byte hb
  have hv₀ : m₀.cpu.regs.byte s = .ok v := by
    rw [h.cpu, Registers.byte_setPc]
    exact hv
  obtain ⟨r, hrs, hm⟩ := m₀.exists_modifyOperand_register _ hv₀ hb hf
  rw [← execCode_of_inPlace hk] at hm
  obtain ⟨m', hs, -, hm'⟩ := h.exists_stepsBy hm (.of_cpu rfl rfl rfl)
  rw [List.append_nil] at hs
  refine ⟨v, m', hv, hs, ?_, ?_⟩
  · rw [hm', Registers.byte_setF _ _ hf, ← hr, ← hfl]
    exact hrs
  · rw [hm', ← hr, ← hfl]

/-- The step of an operation in place on memory at HL. -/
theorem Begins.inPlace_indirect (h : m.Begins code m₀)
    (hk : code.inPlace? = some (k, .indirect .hl)) :
    ∃ v m',
      let r := k.apply m.cpu.rules v (.ofByte m.cpu.regs.f)
      let writes := (r.1.map (Access.write m.cpu.regs.hl)).toList
      m.StepsBy code.bytes (.read m.cpu.regs.hl v :: writes)
          (4 * (code.bytes.length + (writes.length + 1))) m' ∧
        m'.cpu.regs =
          { m.cpu.regs with
            f := r.2.toByte, pc := m.cpu.regs.pc + UInt16.ofNat code.bytes.length } := by
  have hl : m₀.cpu.regs.hl = m.cpu.regs.hl := by
    rw [h.cpu]
    rfl
  have hr : m₀.cpu.rules = m.cpu.rules := by rw [h.cpu]
  have hfl : m₀.cpu.flags = .ofByte m.cpu.regs.f := by rw [h.cpu]
  have hw : m₀.wordReg .hl = .ok m.cpu.regs.hl := by
    rw [← hl]
    rfl
  obtain ⟨m₁, hm, ha, hregs, hflags⟩ := m₀.exists_modifyOperand_indirect _ hw
  rw [← execCode_of_inPlace hk] at hm
  obtain ⟨m', hs, -, hm'⟩ := h.exists_stepsBy hm ha.toProceeds
  rw [List.append_nil, hr, hfl] at hs
  rw [hr, hfl] at hflags
  refine ⟨_, m', hs, ?_⟩
  rw [hm', hregs, hflags, h.cpu]

end

/-- The step of a rotation of A. -/
theorem Begins.rotateA {m m₀ : Machine (Traced σ)} {code : Code} {k : Shift}
    (h : m.Begins code m₀) (hd : code.operation = .rotateA k) :
    ∃ m', m.StepsBy code.bytes [] 4 m' ∧
      let r := k.apply m.cpu.regs.a false (.ofByte m.cpu.regs.f)
      m'.cpu.regs.a = r.1 ∧ m'.cpu.regs.f = r.2.toByte := by
  have he : m₀.execCode code = .ok (m₀.setResult (k.apply m₀.cpu.regs.a false m₀.cpu.flags)) :=
    execCode_of_operation hd nofun m₀
  obtain ⟨m', hs, -, hm⟩ := h.exists_stepsBy he (.of_cpu rfl rfl rfl)
  rw [List.append_nil, length_bytes_of_operation hd nofun] at hs
  refine ⟨m', hs, ?_⟩
  rw [hm, h.cpu]
  exact ⟨rfl, rfl⟩

/-- The forms of an operation agree. On A and a byte, the form that reads memory at HL computes what
the form on a register does, and so does the immediate form if flags come from the operands. An
operation in place makes the same of memory at HL as of a register, writes it back once, and changes
no register but F. The rotations of A differ from those of the second page in the zero flag alone. A
read from memory or of an immediate costs four cycles more, a write four more again, and the second
page costs four more. -/
theorem forms_agree {σ₁ σ₂ : Type} [Bus σ₁] [Bus σ₂] (m₁ : Machine (Traced σ₁))
    (m₂ : Machine (Traced σ₂)) {c₁ c₂ : Code} (h₁ : m₁.code? = some c₁) (h₂ : m₂.code? = some c₂)
    (hr : m₂.cpu.rules = m₁.cpu.rules) (hf : m₂.cpu.regs.f = m₁.cpu.regs.f) :
    (∀ op s, c₁.operation = .byteOp op (.register s) →
      c₂.operation = .byteOp op (.indirect .hl) → m₂.cpu.regs.a = m₁.cpu.regs.a →
      ∃ n v v₂ m₁' m₂', m₁.cpu.regs.byte s = .ok v ∧ m₁.StepsBy c₁.bytes [] n m₁' ∧
        m₂.StepsBy c₂.bytes [.read m₂.cpu.regs.hl v₂] (n + 4) m₂' ∧
        (v₂ = v → m₂'.cpu.regs.a = m₁'.cpu.regs.a ∧ m₂'.cpu.regs.f = m₁'.cpu.regs.f)) ∧
    (∀ op s, c₁.operation = .byteOp op (.register s) →
      c₂.operation = .byteOp op .immediate → m₂.cpu.regs.a = m₁.cpu.regs.a →
      ∃ n v v₂ m₁' m₂', m₁.cpu.regs.byte s = .ok v ∧ m₁.StepsBy c₁.bytes [] n m₁' ∧
        m₂.StepsBy (c₂.bytes ++ [v₂]) [] (n + 4) m₂' ∧
        (m₁.cpu.rules.carrySource = .operands → v₂ = v →
          m₂'.cpu.regs.a = m₁'.cpu.regs.a ∧ m₂'.cpu.regs.f = m₁'.cpu.regs.f)) ∧
    (∀ k s, c₁.inPlace? = some (k, .register s) → c₂.inPlace? = some (k, .indirect .hl) →
      ∃ n v r v₂ m₁' m₂', m₁.cpu.regs.byte s = .ok v ∧ m₁.StepsBy c₁.bytes [] n m₁' ∧
        m₁'.cpu.regs.byte s = .ok r ∧
        (match k with
          | .test _ => m₂.StepsBy c₂.bytes [.read m₂.cpu.regs.hl v₂] (n + 4) m₂'
          | _ =>
            ∃ r₂, m₂.StepsBy c₂.bytes
              [.read m₂.cpu.regs.hl v₂, .write m₂.cpu.regs.hl r₂] (n + 8) m₂' ∧
              (v₂ = v → r₂ = r)) ∧
        m₂'.cpu.regs =
          { m₂.cpu.regs with
            f := m₂'.cpu.regs.f, pc := m₂.cpu.regs.pc + UInt16.ofNat c₂.bytes.length } ∧
        (v₂ = v → m₂'.cpu.regs.f = m₁'.cpu.regs.f)) ∧
    (∀ k, c₁.operation = .rotateA k → c₂.inPlace? = some (.shift k, .register .a) →
      m₂.cpu.regs.a = m₁.cpu.regs.a →
      ∃ n m₁' m₂', m₁.StepsBy c₁.bytes [] n m₁' ∧ m₂.StepsBy c₂.bytes [] (n + 4) m₂' ∧
        m₁'.cpu.regs.a = m₂'.cpu.regs.a ∧
        Flags.ofByte m₁'.cpu.regs.f = { Flags.ofByte m₂'.cpu.regs.f with zero := false }) := by
  obtain ⟨b₁, hb₁⟩ := exists_begins h₁
  obtain ⟨b₂, hb₂⟩ := exists_begins h₂
  refine ⟨?_, ?_, ?_, ?_⟩
  · intro op s hd₁ hd₂ ha
    obtain ⟨v, m₁', hv, hs₁, ha₁, hf₁⟩ := hb₁.byteOp_register hd₁
    obtain ⟨v₂, m₂', hs₂, ha₂, hf₂⟩ := hb₂.byteOp_indirect hd₂
    have hb : m₁.cpu.rules.basis (.indirect .hl) = m₁.cpu.rules.basis (.register s) :=
      FlagRules.basis_congr _ nofun nofun
    refine ⟨4, v, v₂, m₁', m₂', hv, hs₁, hs₂, ?_⟩
    rintro rfl
    rw [ha₁, hf₁, ha₂, hf₂, hr, ha, hf, op.apply_congr hb]
    exact ⟨rfl, rfl⟩
  · intro op s hd₁ hd₂ ha
    obtain ⟨v, m₁', hv, hs₁, ha₁, hf₁⟩ := hb₁.byteOp_register hd₁
    obtain ⟨v₂, m₂', hs₂, ha₂, hf₂⟩ := hb₂.byteOp_immediate hd₂
    refine ⟨4, v, v₂, m₁', m₂', hv, hs₁, hs₂, ?_⟩
    rintro ho rfl
    have hb := (FlagRules.basis_of_operands ho .immediate).trans
      (FlagRules.basis_of_operands ho (.register s)).symm
    rw [ha₁, hf₁, ha₂, hf₂, hr, ha, hf, op.apply_congr hb]
    exact ⟨rfl, rfl⟩
  · intro k s hk₁ hk₂
    obtain ⟨v, m₁', hv, hs₁, hr₁, hf₁⟩ := hb₁.inPlace_register hk₁
    obtain ⟨v₂, m₂', hs₂, hregs⟩ := hb₂.inPlace_indirect hk₂
    have hf₂ := congrArg Registers.f hregs
    rw [hr, hf, Code.length_bytes_of_inPlace hk₂] at hs₂
    rw [Code.length_bytes_of_inPlace hk₁] at hs₁
    refine ⟨_, v, _, v₂, m₁', m₂', hv, hs₁, hr₁, ?_, ?_, ?_⟩
    · cases k with
      | test i => exact hs₂
      | _ =>
        refine ⟨_, hs₂, ?_⟩
        rintro rfl
        rfl
    · rw [hregs]
    · rintro rfl
      rw [hf₁, hf₂, hr, hf]
  · intro k hd₁ hk₂ ha
    obtain ⟨m₁', hs₁, ha₁, hf₁⟩ := hb₁.rotateA hd₁
    obtain ⟨v, m₂', hv, hs₂, ha₂, hf₂⟩ := hb₂.inPlace_register hk₂
    obtain rfl : m₂.cpu.regs.a = v := Except.ok.inj hv
    have ha₂ : m₂'.cpu.regs.a = _ := Except.ok.inj ha₂
    rw [Code.length_bytes_of_inPlace hk₂] at hs₂
    refine ⟨4, m₁', m₂', hs₁, hs₂, ?_, ?_⟩
    · rw [ha₁, ha₂, ha, hf]
      rfl
    · rw [hf₁, hf₂, ha, hf, Flags.ofByte_toByte, Flags.ofByte_toByte]
      rfl

/-- The short rotation of A and the one of the second page. -/
theorem forms_agree_of_rlca :
    let m₁ : Machine (Traced FlatMemory) :=
      { cpu := { regs := { a := 0x80 } }, bus := { bus := .filled 0x07 } }
    let m₂ : Machine (Traced FlatMemory) :=
      { cpu := { regs := { a := 0x80 } }, bus := { bus := (FlatMemory.filled 0x07).set 0 0xCB } }
    m₁.code? = some (.base 0x07) ∧ m₂.code? = some (.bit 0x07) ∧
      ∃ n m₁' m₂', m₁.step = .ok (n, m₁') ∧ m₂.step = .ok (n + 4, m₂') ∧
        m₁'.cpu.regs.a = m₂'.cpu.regs.a ∧
        Flags.ofByte m₁'.cpu.regs.f = { Flags.ofByte m₂'.cpu.regs.f with zero := false } := by
  intro m₁ m₂
  have ho₁ : m₁.fetchOpcode.1 = 0x07 := FlatMemory.get_filled 0x07 0
  have hc₁ : m₁.fetchCode.1 = .base 0x07 := by
    rw [fetchCode_of_ne (by rw [ho₁]; decide), ho₁]
  have hb₂ : m₂.fetchOpcode.2.fetchByte.1 = 0x07 := by
    show ((FlatMemory.filled 0x07).set 0 0xCB).get 1 = 0x07
    rw [FlatMemory.get_set_of_ne _ (by decide), FlatMemory.get_filled]
  have ho₂ : m₂.fetchOpcode.1 = 0xCB := FlatMemory.get_set_self (.filled 0x07) 0 0xCB
  have hc₂ : m₂.fetchCode.1 = .bit 0x07 := by
    rw [fetchCode_of_cb ho₂, hb₂]
  have h₁ : m₁.code? = some (.base 0x07) := congrArg some hc₁
  have h₂ : m₂.code? = some (.bit 0x07) := congrArg some hc₂
  obtain ⟨-, -, -, h⟩ := forms_agree m₁ m₂ h₁ h₂ rfl rfl
  obtain ⟨n, m₁', m₂', hs₁, hs₂, ha, hf⟩ := h .rlc (by decide) (by decide) rfl
  exact ⟨h₁, h₂, n, m₁', m₂', hs₁.step, hs₂.step, ha, hf⟩

end Machine

end DotMatrix
