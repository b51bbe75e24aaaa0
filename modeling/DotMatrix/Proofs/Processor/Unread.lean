import DotMatrix.Proofs.Processor.Fetch

/-!
# What a step does not read

Some parts of a processor are written and not read: the decoded flags and the count of accesses of
the last instruction, the record of it, and the low nibble of F. Byte arithmetic apart, the flag
rules are not read either. To change them before a step is to change them after it.

* `Unread` is a change of these parts, and `m.alter t` makes it.
* While a step is decided nothing of this is read (`turn_alter`). From the fetch of the opcode on
  the flags and the count are, which then are new: `t.during` is what is left of a change.
* `execBase_alter` and `execCode_alter` say it of operations, and `complete_alter` that the end of
  an instruction undoes a change.
* `step_alter_of_idle` and `step_alter_of_fetched` are the laws of steps.
-/

namespace DotMatrix

namespace BaseOp

/-- Whether an operation uses the flag rules. -/
def usesRules : BaseOp → Bool
  | inc _ | dec _ | byteOp .. => true
  | _ => false

end BaseOp

/-- The flags are in the upper nibble. -/
theorem Flags.ofByte_and_high (v : UInt8) : ofByte (v &&& 0xF0) = ofByte v := by
  rw [← toByte_ofByte, ofByte_toByte]

/-- A change of what a step does not read. -/
structure Unread where
  rules : FlagRules → FlagRules := id
  flags : Flags → Flags := id
  accesses : Nat → Nat := id
  last : Fetched → Fetched := id
  f : UInt8 → UInt8 := id
  /-- The upper nibble of F stays. -/
  and_high : ∀ v, f v &&& 0xF0 = v &&& 0xF0
  /-- F stays if its low nibble is clear. -/
  of_high : ∀ v, f (v &&& 0xF0) = v &&& 0xF0

namespace Unread

/-- What is left of a change once an opcode has been fetched. -/
def during (t : Unread) : Unread := { t with flags := id, accesses := id }

/-- The change in a register file. -/
def regs (t : Unread) (r : Registers) : Registers := { r with f := t.f r.f }

variable (t : Unread)

/-- The flags in F stay. -/
theorem ofByte_f (v : UInt8) : Flags.ofByte (t.f v) = .ofByte v := by
  rw [← Flags.ofByte_and_high, t.and_high, Flags.ofByte_and_high]

variable (r : Registers) (s : Selector)

theorem byte_regs : (t.regs r).byte s = r.byte s := by
  cases s with
  | f => exact congrArg Except.ok (t.and_high r.f)
  | _ => rfl

theorem word_regs : (t.regs r).word s = r.word s := by
  cases s with
  | af => exact congrArg (fun f => Except.ok (Word.ofBytes r.a f)) (t.and_high r.f)
  | _ => rfl

theorem setByte_regs (v : UInt8) : (t.regs r).setByte s v = (r.setByte s v).map t.regs := by
  cases s with
  | f => exact congrArg (fun f => Except.ok { r with f := f }) (t.of_high v).symm
  | _ => rfl

theorem setWord_regs (w : UInt16) : (t.regs r).setWord s w = (r.setWord s w).map t.regs := by
  cases s with
  | af =>
    exact congrArg (fun f => Except.ok { r with a := Word.high w, f := f })
      (t.of_high (Word.low w)).symm
  | _ => rfl

end Unread

namespace Machine

variable {σ : Type}

/-- Change what a step does not read. -/
def alter (m : Machine σ) (t : Unread) : Machine σ :=
  { m with
    cpu :=
      { m.cpu with
        regs := t.regs m.cpu.regs
        flags := t.flags m.cpu.flags
        rules := t.rules m.cpu.rules
        accesses := t.accesses m.cpu.accesses
        last := t.last m.cpu.last } }

variable [Bus σ] (m : Machine σ) (t : Unread)

/-! ### Turns -/

theorem firstInterrupt_alter :
    (m.alter t).firstInterrupt = (m.firstInterrupt.1, m.firstInterrupt.2.alter t) := by
  have hi : (m.alter t).cpu.ime = m.cpu.ime := rfl
  unfold firstInterrupt
  rw [hi]
  split <;> rfl

theorem turn_alter : (m.alter t).turn = (m.turn.1, m.turn.2.alter t) := by
  have hs : (m.alter t).cpu.stopped = m.cpu.stopped := rfl
  have hf := m.firstInterrupt_alter t
  unfold turn
  rw [hs, hf]
  split
  · rfl
  · obtain ⟨i, m₁⟩ := m.firstInterrupt
    cases i with
    | some i => rfl
    | none =>
      have hh : (m₁.alter t).cpu.halted = m₁.cpu.halted := rfl
      have hp : (m₁.alter t).pollInterrupts =
        (m₁.pollInterrupts.1, m₁.pollInterrupts.2.alter t) := rfl
      dsimp only
      rw [hh, hp]
      split
      · dsimp only
        split <;> rfl
      · rfl

theorem sampleLines_alter : (m.alter t).sampleLines = m.sampleLines.alter t := by
  have hs : (m.alter t).sample 0xFF00 = ((m.sample 0xFF00).1, (m.sample 0xFF00).2.alter t) := rfl
  have hl : ((m.sample 0xFF00).2.alter t).cpu.stopLines = (m.sample 0xFF00).2.cpu.stopLines := rfl
  unfold sampleLines
  rw [hs]
  dsimp only
  rw [hl]
  split <;> rfl

theorem enterHandler_alter (i : Nat) : (m.alter t).enterHandler i = (m.enterHandler i).alter t :=
  rfl

/-! ### Codes -/

/-- The fetch of an opcode decodes the flags from the upper nibble of F and begins a new count. -/
theorem fetchOpcode_alter :
    (m.alter t).fetchOpcode = (m.fetchOpcode.1, m.fetchOpcode.2.alter t.during) := by
  have hm : ((m.alter t).fetchOpcode.2.setFlags (.ofByte m.cpu.regs.f)) =
      m.fetchOpcode.2.alter t.during := rfl
  rw [← hm, ← t.ofByte_f]
  rfl

theorem fetchCode_alter :
    (m.alter t).fetchCode = (m.fetchCode.1, m.fetchCode.2.alter t.during) := by
  unfold fetchCode
  rw [fetchOpcode_alter]
  dsimp only
  split <;> rfl

/-! ### Operands -/

omit [Bus σ] in
theorem byteReg_alter (s : Selector) : (m.alter t).byteReg s = m.byteReg s :=
  congrArg Fault.ofWidth (t.byte_regs m.cpu.regs s)

omit [Bus σ] in
theorem wordReg_alter (s : Selector) : (m.alter t).wordReg s = m.wordReg s :=
  congrArg Fault.ofWidth (t.word_regs m.cpu.regs s)

omit [Bus σ] in
theorem setByteReg_alter (s : Selector) (v : UInt8) :
    (m.alter t).setByteReg s v = (m.setByteReg s v).map (·.alter t) := by
  have hr : (m.alter t).cpu.regs = t.regs m.cpu.regs := rfl
  unfold setByteReg
  rw [hr, t.setByte_regs]
  cases m.cpu.regs.setByte s v <;> rfl

omit [Bus σ] in
theorem setWordReg_alter (s : Selector) (w : UInt16) :
    (m.alter t).setWordReg s w = (m.setWordReg s w).map (·.alter t) := by
  have hr : (m.alter t).cpu.regs = t.regs m.cpu.regs := rfl
  unfold setWordReg
  rw [hr, t.setWord_regs]
  cases m.cpu.regs.setWord s w <;> rfl

theorem readOperand_alter (o : Operand) :
    (m.alter t.during).readOperand o =
      (m.readOperand o).map fun p => (p.1, p.2.alter t.during) := by
  cases o with
  | register s =>
    simp only [readOperand, byteReg_alter]
    cases m.byteReg s <;> rfl
  | indirect s =>
    simp only [readOperand, address, wordReg_alter]
    cases m.wordReg s <;> rfl
  | _ => rfl

theorem writeOperand_alter (o : Operand) (v : UInt8) :
    (m.alter t.during).writeOperand o v = (m.writeOperand o v).map (·.alter t.during) := by
  cases o with
  | register s => exact m.setByteReg_alter t.during s v
  | indirect s =>
    simp only [writeOperand, address, wordReg_alter]
    cases m.wordReg s <;> rfl
  | _ => rfl

theorem modifyOperand_alter (o : Operand)
    (g : UInt8 → Flags → Except Fault (Option UInt8 × Flags)) :
    (m.alter t.during).modifyOperand o g = (m.modifyOperand o g).map (·.alter t.during) := by
  cases o with
  | register s =>
    have hf : (m.alter t.during).cpu.flags = m.cpu.flags := rfl
    simp only [modifyOperand, byteReg_alter, hf]
    cases m.byteReg s with
    | error e => rfl
    | ok v =>
      simp only [bind, Except.bind]
      cases g v m.cpu.flags with
      | error e => rfl
      | ok p =>
        obtain ⟨_ | u, fl⟩ := p
        · rfl
        · exact (m.setFlags fl).setByteReg_alter t.during s u
  | indirect s =>
    simp only [modifyOperand, wordReg_alter]
    cases m.wordReg s with
    | error e => rfl
    | ok a =>
      have hv : ((m.alter t.during).read a).1 = (m.read a).1 := rfl
      have hf : ((m.alter t.during).read a).2.cpu.flags = (m.read a).2.cpu.flags := rfl
      simp only [bind, Except.bind, hv, hf]
      cases g (m.read a).1 (m.read a).2.cpu.flags with
      | error e => rfl
      | ok p =>
        obtain ⟨_ | u, fl⟩ := p <;> rfl
  | _ => rfl

/-! ### Operations -/

theorem push_alter (w : UInt16) :
    (m.alter t.during).push w = (m.push w).alter t.during := rfl

theorem execCall_alter (c : Condition) :
    (m.alter t.during).execCall c = (m.execCall c).alter t.during := by
  have hf : (m.alter t.during).fetchWord =
    (m.fetchWord.1, m.fetchWord.2.alter t.during) := rfl
  have hc : (m.fetchWord.2.alter t.during).cpu.flags = m.fetchWord.2.cpu.flags := rfl
  have hp : (m.fetchWord.2.alter t.during).cpu.regs.pc = m.fetchWord.2.cpu.regs.pc := rfl
  unfold execCall
  dsimp only
  rw [hf]
  dsimp only
  rw [hc, hp, push_alter]
  split <;> rfl

theorem execStop_alter : (m.alter t.during).execStop = m.execStop.alter t.during := by
  have hr : (m.alter t.during).read m.cpu.regs.pc =
    ((m.read m.cpu.regs.pc).1, (m.read m.cpu.regs.pc).2.alter t.during) := rfl
  have hp : (m.alter t.during).cpu.regs.pc = m.cpu.regs.pc := rfl
  unfold execStop
  dsimp only
  rw [hp, hr]
  split <;> rfl

/-- Only byte arithmetic reads the flag rules. -/
theorem execBase_alter {op : BaseOp} (h : t.rules = id ∨ op.usesRules = false) :
    (m.alter t.during).execBase op = (m.execBase op).map (·.alter t.during) := by
  have hr (m : Machine σ) (hu : op.usesRules = true) :
      (m.alter t.during).cpu.rules = m.cpu.rules := by
    rcases h with h | h
    · exact congrFun h m.cpu.rules
    · rw [hu] at h
      cases h
  cases op with
  | load dst src =>
    simp only [execBase]
    rw [readOperand_alter]
    cases m.readOperand src with
    | error e => rfl
    | ok p => exact p.2.writeOperand_alter t dst p.1
  | loadWord s =>
    simp only [execBase, execLoadWord]
    split
    · exact m.fetchWord.2.setWordReg_alter t.during s m.fetchWord.1
    · rfl
  | inc o | dec o =>
    simp only [execBase]
    rw [hr m rfl]
    exact m.modifyOperand_alter t o _
  | incWord s | decWord s =>
    simp only [execBase]
    rw [wordReg_alter]
    cases m.wordReg s with
    | error e => rfl
    | ok w => exact m.setWordReg_alter t.during s _
  | byteOp op src =>
    simp only [execBase]
    rw [readOperand_alter]
    cases m.readOperand src with
    | error e => rfl
    | ok p =>
      simp only [Except.map, bind, Except.bind, pure, Except.pure]
      rw [hr p.2 rfl]
      rfl
  | addHl s =>
    simp only [execBase, execAddHl]
    rw [wordReg_alter]
    cases m.wordReg s <;> rfl
  | push s =>
    simp only [execBase, execPush]
    split
    · rfl
    · rw [wordReg_alter]
      cases m.wordReg s <;> rfl
  | pop s =>
    have hp : (m.alter t.during).pop = (m.pop.1, m.pop.2.alter t.during) := rfl
    simp only [execBase, execPop]
    rw [hp]
    dsimp only
    rw [setWordReg_alter]
    cases hs : m.pop.2.setWordReg s m.pop.1 with
    | error e => rfl
    | ok m₁ =>
      by_cases hs : s = .af
      · subst hs
        exact congrArg (fun fl => Except.ok ((m₁.alter t.during).setFlags fl)) (t.ofByte_f _)
      · simp only [Except.map, bind, Except.bind, pure, Except.pure, if_neg hs]
  | jump c | jumpRelative c | ret c =>
    refine congrArg Except.ok (?_ : _ = Machine.alter _ t.during)
    show (if c.holds m.cpu.flags then _ else _) =
      (if c.holds m.cpu.flags then _ else _ : Machine σ).alter t.during
    split <;> rfl
  | call c => exact congrArg Except.ok (m.execCall_alter t c)
  | stop => exact congrArg Except.ok (m.execStop_alter t)
  | rst v =>
    simp only [execBase, execRst]
    split <;> rfl
  | _ => rfl

theorem execCode_alter (h : t.rules = id) (code : Code) :
    (m.alter t.during).execCode code = (m.execCode code).map (·.alter t.during) := by
  cases code with
  | base b => exact m.execBase_alter t (.inl h)
  | bit b => exact m.modifyOperand_alter t _ _

/-! ### Steps -/

omit [Bus σ] in
/-- The end of an instruction writes F and the record anew. -/
theorem complete_alter (h : t.rules = id) (pc : UInt16) (code : Code) :
    (m.alter t.during).complete pc code = m.complete pc code := by
  obtain ⟨rules, flags, accesses, last, f⟩ := t
  obtain rfl : rules = id := h
  unfold complete
  dsimp only
  rw [settleRequest_eq, settleRequest_eq]
  rfl

/-- Nothing of a change is left after an instruction. -/
theorem executeNext_alter (h : t.rules = id) : (m.alter t).executeNext = m.executeNext := by
  have hp : (m.alter t).cpu.regs.pc = m.cpu.regs.pc := rfl
  rw [executeNext_eq_execCode, executeNext_eq_execCode, fetchCode_alter, hp]
  dsimp only
  rw [execCode_alter _ t h]
  cases m.fetchCode.2.execCode m.fetchCode.1 with
  | error e => rfl
  | ok m₁ => exact congrArg Except.ok (m₁.complete_alter t h ..)

theorem fetched?_alter : (m.alter t).fetched? = m.fetched? := by
  unfold fetched?
  rw [turn_alter]
  obtain ⟨turn, m₁⟩ := m.turn
  cases turn <;> rfl

/-- A step that fetches nothing leaves a change. -/
theorem step_alter_of_idle (h : m.fetched? = none) :
    (m.alter t).step = m.step.map fun p => (p.1, p.2.alter t) := by
  unfold fetched? at h
  unfold step
  rw [turn_alter]
  generalize m.turn = p at h ⊢
  obtain ⟨turn, m₁⟩ := p
  cases turn with
  | sampleLines => exact congrArg (fun m => Except.ok (4, m)) (m₁.sampleLines_alter t)
  | enterHandler i => exact congrArg (fun m => Except.ok (20, m)) (m₁.enterHandler_alter t i)
  | wait => rfl
  | execute => cases h

/-- A step that fetches an opcode undoes a change. -/
theorem step_alter_of_fetched (hr : t.rules = id) {opcode : UInt8} (h : m.fetched? = some opcode) :
    (m.alter t).step = m.step := by
  unfold fetched? at h
  unfold step
  rw [turn_alter]
  generalize m.turn = p at h ⊢
  obtain ⟨turn, m₁⟩ := p
  cases turn with
  | execute => exact m₁.executeNext_alter t hr
  | _ => cases h

end Machine

end DotMatrix
