import DotMatrix.Proofs.Processor.Fetch

/-!
# What an instruction leaves alone

An instruction changes the flags, its destination, the pointers that its addressing moves, and
nothing else.

* `Code.kept` are the flags that an instruction keeps, `Code.destination` is what it writes to among
  the registers, and `Code.moved` says how it moves HL and SP besides.
* `m.Frames op m'` says that executing an operation follows this; `Machine.exists_frames` proves it
  for the first page and `Machine.exists_frames_bit` for the second.
* `step_frame` is the law of a step.
-/

namespace DotMatrix

/-! ### What is kept -/

namespace Flags

/-- Some flags, the others cleared. -/
def restrict (kept fl : Flags) : Flags where
  zero := kept.zero && fl.zero
  subtract := kept.subtract && fl.subtract
  halfCarry := kept.halfCarry && fl.halfCarry
  carry := kept.carry && fl.carry

/-- All four flags. -/
def every : Flags := ⟨true, true, true, true⟩

theorem restrict_every (fl : Flags) : every.restrict fl = fl := by
  cases fl
  rfl

/-- The byte of flags has no low nibble. -/
theorem toByte_and_low (fl : Flags) : fl.toByte &&& 0x0F = 0 := by
  rcases fl with ⟨_ | _, _ | _, _ | _, _ | _⟩ <;> rfl

end Flags

namespace Registers

/-- The register file with the registers of a selector cleared. -/
def without (r : Registers) : Selector → Registers
  | .a => { r with a := 0 }
  | .f => { r with f := 0 }
  | .b => { r with b := 0 }
  | .c => { r with c := 0 }
  | .d => { r with d := 0 }
  | .e => { r with e := 0 }
  | .h => { r with h := 0 }
  | .l => { r with l := 0 }
  | .af => { r with a := 0, f := 0 }
  | .bc => { r with b := 0, c := 0 }
  | .de => { r with d := 0, e := 0 }
  | .hl => { r with h := 0, l := 0 }
  | .sp => { r with sp := 0 }
  | .pc => { r with pc := 0 }
  | .none | .immediate | .bit _ => r

/-- All registers but those of a selector, F and the program counter. -/
def rest (r : Registers) (s : Selector) : Registers := { r.without s with f := 0, pc := 0 }

variable {r r' : Registers} {s : Selector}

theorem rest_rest (r : Registers) (s : Selector) : (r.rest .none).rest s = r.rest s := by
  cases s <;> rfl

/-- What agrees everywhere agrees outside a selector. -/
theorem rest_of_rest_none (h : r'.rest .none = r.rest .none) (s : Selector) :
    r'.rest s = r.rest s := by
  rw [← rest_rest r', h, rest_rest]

/-- The program counter does not matter. -/
theorem rest_of_pc (h : r' = { r with pc := r'.pc }) (s : Selector) : r'.rest s = r.rest s := by
  rw [h]
  cases s <;> rfl

/-- F does not matter. -/
theorem rest_setF (r : Registers) (v : UInt8) (s : Selector) :
    ({ r with f := v } : Registers).rest s = r.rest s := by
  cases s <;> rfl

theorem rest_setByte {v : UInt8} (h : r.setByte s v = .ok r') : r'.rest s = r.rest s := by
  cases s <;> first | (cases h; rfl) | cases h

theorem rest_setWord {w : UInt16} (h : r.setWord s w = .ok r') : r'.rest s = r.rest s := by
  cases s <;> first | (cases h; rfl) | cases h

end Registers

namespace Operand

/-- The register that is changed when an operand is written. -/
def destination : Operand → Selector
  | register s => s
  | _ => .none

/-- The registers after an operand is found in memory: `(HL+)` and `(HL-)` move HL. -/
def moved (o : Operand) (r : Registers) : Registers :=
  match o with
  | indirectInc => r.setHl (r.hl + 1)
  | indirectDec => r.setHl (r.hl - 1)
  | _ => r

theorem rest_moved (o : Operand) (r : Registers) :
    (o.moved r).rest .none = o.moved (r.rest .none) := by
  cases o <;> rfl

end Operand

namespace BaseOp

/-- The flags that an operation keeps. -/
def kept : BaseOp → Flags
  | inc _ | dec _ => { carry := true }
  | addHl _ | scf | ccf => { zero := true }
  | cpl => { zero := true, carry := true }
  | daa => { subtract := true }
  | byteOp .. | loadHlSpOffset | addSpOffset | rotateA _ | pop .af => {}
  | _ => .every

/-- The register or pair that an operation writes its result to. -/
def destination : BaseOp → Selector
  | load dst _ => dst.destination
  | inc o | dec o => o.destination
  | loadWord s | incWord s | decWord s | pop s => s
  | byteOp op _ => if op = .cp then .none else .a
  | daa | cpl | rotateA _ => .a
  | loadHlSpOffset | addHl _ => .hl
  | loadSpHl | addSpOffset => .sp
  | _ => .none

/-- The registers after an operation has moved HL past an operand or SP past a word, given whether a
call or a return happens. -/
def moved (op : BaseOp) (taken : Bool) (r : Registers) : Registers :=
  match op with
  | load dst src => dst.moved (src.moved r)
  | byteOp _ src => src.moved r
  | push _ | rst _ => { r with sp := r.sp - 2 }
  | pop _ | reti => { r with sp := r.sp + 2 }
  | call _ => if taken then { r with sp := r.sp - 2 } else r
  | ret _ => if taken then { r with sp := r.sp + 2 } else r
  | _ => r

theorem rest_moved (op : BaseOp) (taken : Bool) (r : Registers) :
    (op.moved taken r).rest .none = op.moved taken (r.rest .none) := by
  cases op with
  | load dst src =>
    show (dst.moved (src.moved r)).rest .none = dst.moved (src.moved (r.rest .none))
    rw [Operand.rest_moved, Operand.rest_moved]
  | byteOp op src => exact src.rest_moved r
  | call | ret => cases taken <;> rfl
  | _ => rfl

end BaseOp

namespace BitOp

/-- The flags that an operation keeps. -/
def kept : BitOp → Flags
  | shift .. => {}
  | test .. => { carry := true }
  | reset .. | set .. => .every

/-- The register that an operation writes its result to. -/
def destination : BitOp → Selector
  | test .. => .none
  | shift _ o | reset _ o | set _ o => o.destination

end BitOp

namespace Machine

variable {σ : Type} [Bus σ]

/-- From `m` to `m'` flags are kept, and registers are as in `r` but for a destination. -/
structure Frames (m : Machine σ) (kept : Flags) (s : Selector) (r : Registers) (m' : Machine σ) :
    Prop where
  flags : kept.restrict m'.cpu.flags = kept.restrict m.cpu.flags
  regs : m'.cpu.regs.rest s = r.rest s

section

omit [Bus σ]

variable {m m' : Machine σ} {kept : Flags} {s : Selector} {r : Registers}

/-- The program counter may move. -/
theorem Frames.of_pc (hf : kept.restrict m'.cpu.flags = kept.restrict m.cpu.flags)
    (hr : m'.cpu.regs = { r with pc := m'.cpu.regs.pc }) : m.Frames kept s r m' :=
  ⟨hf, Registers.rest_of_pc hr s⟩

/-- A jump may follow. -/
theorem Frames.goto (h : m.Frames kept s r m') (pc : UInt16) : m.Frames kept s r (m'.goto pc) :=
  ⟨h.flags, (Registers.rest_of_pc rfl s).trans h.regs⟩

end

variable (m : Machine σ) {s : Selector} {o : Operand}

/-! ### Operands -/

omit [Bus σ] in
theorem frames_setByteReg (h : s.isByte = true) (v : UInt8) :
    ∃ m', m.setByteReg s v = .ok m' ∧ m.Frames .every s m.cpu.regs m' := by
  obtain ⟨r, hr, -⟩ := m.cpu.regs.exists_setByte h v
  refine ⟨{ m with cpu := { m.cpu with regs := r } }, ?_, rfl, Registers.rest_setByte hr⟩
  rw [setByteReg, hr]
  rfl

omit [Bus σ] in
theorem frames_setWordReg (h : s.isPair = true) (w : UInt16) :
    ∃ m', m.setWordReg s w = .ok m' ∧ m.Frames .every s m.cpu.regs m' := by
  obtain ⟨r, hr, -⟩ := m.cpu.regs.exists_setWord h w
  refine ⟨{ m with cpu := { m.cpu with regs := r } }, ?_, rfl, Registers.rest_setWord hr⟩
  rw [setWordReg, hr]
  rfl

theorem frames_address (h : o.isReadable = true) (hd : o.dataSize = 1) :
    ∃ a m', m.address o = .ok (a, m') ∧ m.Frames .every .none (o.moved m.cpu.regs) m' := by
  cases o with
  | register | immediate => cases hd
  | indirect s =>
    obtain ⟨w, hw⟩ := m.exists_wordReg h
    refine ⟨w, m, ?_, rfl, rfl⟩
    rw [address, hw]
    rfl
  | _ => exact ⟨_, _, rfl, rfl, rfl⟩

theorem frames_readOperand (h : o.isReadable = true) :
    ∃ v m', m.readOperand o = .ok (v, m') ∧ m.Frames .every .none (o.moved m.cpu.regs) m' := by
  by_cases hd : o.dataSize = 1
  · obtain ⟨a, m', ha, hm⟩ := m.frames_address h hd
    exact ⟨_, _, m.readOperand_of_address hd ha, hm.flags, hm.regs⟩
  · cases o with
    | register s =>
      obtain ⟨v, hv⟩ := m.exists_byteReg h
      refine ⟨v, m, ?_, rfl, rfl⟩
      rw [readOperand, hv]
      rfl
    | immediate => exact ⟨_, _, rfl, rfl, rfl⟩
    | _ => exact absurd rfl hd

theorem frames_writeOperand (h : o.isWritable = true) (v : UInt8) :
    ∃ m', m.writeOperand o v = .ok m' ∧ m.Frames .every o.destination (o.moved m.cpu.regs) m' := by
  by_cases hd : o.dataSize = 1
  · obtain ⟨a, m', ha, hm⟩ := m.frames_address (Operand.isReadable_of_isWritable h) hd
    exact ⟨_, m.writeOperand_of_address hd ha v, hm.flags, Registers.rest_of_rest_none hm.regs _⟩
  · cases o with
    | register s => exact m.frames_setByteReg h v
    | immediate => cases h
    | _ => exact absurd rfl hd

/-- An operand that is modified in place is the destination, if there is a result. -/
theorem frames_modifyOperand (h : o.isModifiable = true) {kept : Flags} (writes : Bool)
    (g : UInt8 → Flags → Except Fault (Option UInt8 × Flags))
    (hg : ∀ v fl, ∃ result fl', g v fl = .ok (result, fl') ∧ result.isSome = writes ∧
      kept.restrict fl' = kept.restrict fl) :
    ∃ m', m.modifyOperand o g = .ok m' ∧
      m.Frames kept (if writes then o.destination else .none) m.cpu.regs m' := by
  cases o with
  | register s =>
    obtain ⟨v, hv⟩ := m.exists_byteReg h
    obtain ⟨result, fl, hr, rfl, hk⟩ := hg v m.cpu.flags
    cases result with
    | none =>
      refine ⟨m.setFlags fl, ?_, hk, rfl⟩
      simp only [modifyOperand, hv, hr, bind, Except.bind, pure, Except.pure]
    | some u =>
      obtain ⟨m', hm, hf⟩ := (m.setFlags fl).frames_setByteReg h u
      have hfl : m'.cpu.flags = fl := hf.flags
      refine ⟨m', ?_, ?_, hf.regs⟩
      · simp only [modifyOperand, hv, hr, hm, bind, Except.bind]
      · rw [hfl, hk]
  | indirect s =>
    obtain ⟨a, ha⟩ := m.exists_wordReg h
    obtain ⟨result, fl, hr, rfl, hk⟩ := hg (m.read a).1 (m.read a).2.cpu.flags
    cases result with
    | none =>
      refine ⟨(m.read a).2.setFlags fl, ?_, hk, rfl⟩
      simp only [modifyOperand, ha, hr, bind, Except.bind, pure, Except.pure]
    | some u =>
      refine ⟨((m.read a).2.setFlags fl).write a u, ?_, hk, rfl⟩
      simp only [modifyOperand, ha, hr, bind, Except.bind, pure, Except.pure]
  | _ => cases h

/-! ### Operations -/

theorem frames_load {dst src : Operand} (h : (BaseOp.load dst src).isValid = true) :
    ∃ m', m.execBase (.load dst src) = .ok m' ∧
      m.Frames .every dst.destination (dst.moved (src.moved m.cpu.regs)) m' := by
  simp only [BaseOp.isValid, Bool.and_eq_true] at h
  obtain ⟨⟨hdst, hsrc⟩, -⟩ := h
  obtain ⟨v, m₁, h₁, hf₁⟩ := m.frames_readOperand hsrc
  obtain ⟨m₂, h₂, hf₂⟩ := m₁.frames_writeOperand hdst v
  refine ⟨m₂, ?_, hf₂.flags.trans hf₁.flags, hf₂.regs.trans (Registers.rest_of_rest_none ?_ _)⟩
  · simp only [execBase, h₁, h₂, bind, Except.bind]
  · rw [Operand.rest_moved, hf₁.regs, Operand.rest_moved dst]

theorem frames_byteOp (k : ByteOp) {src : Operand} (h : src.isReadable = true) :
    ∃ m', m.execBase (.byteOp k src) = .ok m' ∧
      m.Frames {} (BaseOp.byteOp k src).destination (src.moved m.cpu.regs) m' := by
  obtain ⟨v, m₁, h₁, hf⟩ := m.frames_readOperand h
  refine ⟨m₁.setResult (k.apply m₁.cpu.rules src m₁.cpu.regs.a v m₁.cpu.flags), ?_, rfl, ?_⟩
  · simp only [execBase, h₁, bind, Except.bind, pure, Except.pure]
  · rw [← Registers.rest_of_rest_none hf.regs]
    cases k <;> rfl

theorem frames_loadWord {s : Selector} (h : s = .bc ∨ s = .de ∨ s = .hl ∨ s = .sp) :
    ∃ m', m.execLoadWord s = .ok m' ∧ m.Frames .every s m.cpu.regs m' := by
  have hs : s.isPair = true := by
    rcases h with rfl | rfl | rfl | rfl <;> rfl
  obtain ⟨m', hm, hf⟩ := m.fetchWord.2.frames_setWordReg hs m.fetchWord.1
  refine ⟨m', ?_, hf.flags, hf.regs.trans (Registers.rest_of_pc rfl s)⟩
  rw [execLoadWord, if_pos h]
  exact hm

omit [Bus σ] in
theorem frames_mapWordReg {s : Selector} (h : s.isPair = true) (g : UInt16 → UInt16) :
    ∃ m', (do let w ← m.wordReg s; m.setWordReg s (g w)) = .ok m' ∧
      m.Frames .every s m.cpu.regs m' := by
  obtain ⟨w, hw⟩ := m.exists_wordReg h
  obtain ⟨m', hm, hf⟩ := m.frames_setWordReg h (g w)
  exact ⟨m', by simp only [hw, hm, bind, Except.bind], hf⟩

omit [Bus σ] in
theorem frames_addHl {s : Selector} (h : s.isPair = true) :
    ∃ m', m.execAddHl s = .ok m' ∧ m.Frames { zero := true } .hl m.cpu.regs m' := by
  obtain ⟨w, hw⟩ := m.exists_wordReg h
  let p := Arithmetic.addWords m.cpu.regs.hl w m.cpu.flags
  refine ⟨(m.mapRegs fun r => r.setHl p.1).setFlags p.2, ?_, rfl, rfl⟩
  simp only [execAddHl, hw, bind, Except.bind, pure, Except.pure, p]

theorem frames_push (w : UInt16) :
    m.Frames .every .none { m.cpu.regs with sp := m.cpu.regs.sp - 2 } (m.push w) where
  flags := rfl
  regs := by
    have hs : m.cpu.regs.sp - 1 - 1 = m.cpu.regs.sp - 2 := by
      rw [UInt16.sub_eq_add_neg, UInt16.sub_eq_add_neg, UInt16.sub_eq_add_neg, UInt16.add_assoc]
      rfl
    rw [← hs]
    rfl

theorem frames_execPush {s : Selector} (h : s.isPair = true) :
    ∃ m', m.execPush s = .ok m' ∧
      m.Frames .every .none { m.cpu.regs with sp := m.cpu.regs.sp - 2 } m' := by
  by_cases hs : s = .af
  · subst hs
    exact ⟨_, rfl, m.frames_push _⟩
  · obtain ⟨w, hw⟩ := m.exists_wordReg h
    refine ⟨_, ?_, m.frames_push w⟩
    simp only [execPush, hw, bind, Except.bind, pure, Except.pure]

theorem frames_execPop {s : Selector} (h : s.isPair = true) :
    ∃ m', m.execPop s = .ok m' ∧
      m.Frames (BaseOp.pop s).kept s { m.cpu.regs with sp := m.cpu.regs.sp + 2 } m' := by
  obtain ⟨m₁, hm, hf⟩ := m.pop.2.frames_setWordReg h m.pop.1
  refine ⟨if s = .af then m₁.setFlags (.ofByte m₁.cpu.regs.f) else m₁, ?_, ?_, ?_⟩
  · simp only [execPop, hm, bind, Except.bind, pure, Except.pure]
  · split
    · next hs =>
      subst hs
      rfl
    · next hs =>
      have hk : (BaseOp.pop s).kept = .every := by
        cases s <;> first | rfl | exact absurd rfl hs
      rw [hk]
      exact hf.flags
  · have hr : (if s = .af then m₁.setFlags (.ofByte m₁.cpu.regs.f) else m₁).cpu.regs =
        m₁.cpu.regs := by
      split <;> rfl
    rw [hr]
    exact hf.regs

theorem frames_execCall (c : Condition) :
    m.Frames .every .none ((BaseOp.call c).moved (c.holds m.cpu.flags) m.cpu.regs)
      (m.execCall c) := by
  have he : m.execCall c =
      if c.holds m.cpu.flags then
        (m.fetchWord.2.push m.fetchWord.2.cpu.regs.pc).goto m.fetchWord.1
      else m.fetchWord.2 := rfl
  rw [he]
  cases c.holds m.cpu.flags with
  | false => exact .of_pc rfl rfl
  | true =>
    have hp := (m.fetchWord.2.frames_push m.fetchWord.2.cpu.regs.pc).goto m.fetchWord.1
    exact ⟨hp.flags, hp.regs.trans (Registers.rest_of_pc rfl .none)⟩

theorem frames_execRet (c : Condition) :
    m.Frames .every .none ((BaseOp.ret c).moved (c.holds m.cpu.flags) m.cpu.regs)
      (m.execRet c) := by
  unfold execRet
  cases c.holds m.cpu.flags <;> exact .of_pc rfl rfl

theorem frames_execRst {v : UInt16} (h : (BaseOp.rst v).isValid = true) :
    ∃ m', m.execRst v = .ok m' ∧
      m.Frames .every .none { m.cpu.regs with sp := m.cpu.regs.sp - 2 } m' :=
  ⟨_, if_pos (of_decide_eq_true h), (m.frames_push m.cpu.regs.pc).goto v⟩

theorem frames_execStop : m.Frames .every .none m.cpu.regs m.execStop := by
  unfold execStop
  dsimp only
  split <;> exact .of_pc rfl rfl

/-- Every valid operation of the first page follows its frame. -/
theorem exists_frames {op : BaseOp} (hv : op.isValid = true) (hb : op ≠ .bitPage) :
    ∃ m', m.execBase op = .ok m' ∧
      m.Frames op.kept op.destination (op.moved (op.isTaken m.cpu.flags) m.cpu.regs) m' := by
  cases op with
  | load dst src => exact m.frames_load hv
  | byteOp k src => exact m.frames_byteOp k hv
  | loadWord s => exact m.frames_loadWord (of_decide_eq_true hv)
  | inc o =>
    let g (v : UInt8) (fl : Flags) : Except Fault (Option UInt8 × Flags) :=
      .ok (some (Arithmetic.inc m.cpu.rules v fl).1, (Arithmetic.inc m.cpu.rules v fl).2)
    exact m.frames_modifyOperand hv true g fun v fl => ⟨_, _, rfl, rfl, rfl⟩
  | dec o =>
    let g (v : UInt8) (fl : Flags) : Except Fault (Option UInt8 × Flags) :=
      .ok (some (Arithmetic.dec m.cpu.rules v fl).1, (Arithmetic.dec m.cpu.rules v fl).2)
    exact m.frames_modifyOperand hv true g fun v fl => ⟨_, _, rfl, rfl, rfl⟩
  | incWord s => exact m.frames_mapWordReg hv (· + 1)
  | decWord s => exact m.frames_mapWordReg hv (· - 1)
  | addHl s => exact m.frames_addHl hv
  | push s => exact m.frames_execPush hv
  | pop s => exact m.frames_execPop hv
  | jump c =>
    refine ⟨_, rfl, ?_⟩
    unfold execJump
    dsimp only
    split <;> exact .of_pc rfl rfl
  | jumpRelative c =>
    refine ⟨_, rfl, ?_⟩
    unfold execJumpRelative
    dsimp only
    split <;> exact .of_pc rfl rfl
  | call c => exact ⟨_, rfl, m.frames_execCall c⟩
  | ret c => exact ⟨_, rfl, m.frames_execRet c⟩
  | rst v => exact m.frames_execRst hv
  | stop => exact ⟨_, rfl, m.frames_execStop⟩
  | bitPage => exact absurd rfl hb
  | _ => exact ⟨_, rfl, rfl, rfl⟩

/-- Every valid operation of the second page follows its frame. -/
theorem exists_frames_bit {op : BitOp} (hv : op.isValid = true) :
    ∃ m', m.execBit op = .ok m' ∧ m.Frames op.kept op.destination m.cpu.regs m' := by
  cases op with
  | shift k o =>
    exact m.frames_modifyOperand hv true (BitOp.shift k o).apply fun v fl => ⟨_, _, rfl, rfl, rfl⟩
  | test n o =>
    obtain ⟨hn, ho⟩ := Bool.and_eq_true_iff.1 hv
    refine m.frames_modifyOperand ho false (BitOp.test n o).apply fun v fl => ?_
    exact ⟨_, _, if_pos (of_decide_eq_true hn), rfl, rfl⟩
  | reset n o =>
    obtain ⟨hn, ho⟩ := Bool.and_eq_true_iff.1 hv
    refine m.frames_modifyOperand ho true (BitOp.reset n o).apply fun v fl => ?_
    exact ⟨_, _, if_pos (of_decide_eq_true hn), rfl, rfl⟩
  | set n o =>
    obtain ⟨hn, ho⟩ := Bool.and_eq_true_iff.1 hv
    refine m.frames_modifyOperand ho true (BitOp.set n o).apply fun v fl => ?_
    exact ⟨_, _, if_pos (of_decide_eq_true hn), rfl, rfl⟩

end Machine

/-! ### Codes -/

namespace Code

/-- The flags that an instruction keeps. -/
def kept : Code → Flags
  | base b => (BaseOp.decode b).kept
  | bit b => (BitOp.decode b).kept

/-- The register or pair that an instruction writes its result to. -/
def destination : Code → Selector
  | base b => (BaseOp.decode b).destination
  | bit b => (BitOp.decode b).destination

/-- The registers after an instruction has moved HL or SP, given whether a call or a return
happens. -/
def moved (code : Code) (taken : Bool) (r : Registers) : Registers :=
  match code with
  | base b => (BaseOp.decode b).moved taken r
  | bit _ => r

theorem rest_moved (code : Code) (taken : Bool) (r : Registers) :
    (code.moved taken r).rest .none = code.moved taken (r.rest .none) := by
  cases code with
  | base b => exact (BaseOp.decode b).rest_moved taken r
  | bit _ => rfl

theorem rest_moved_congr {code : Code} {taken : Bool} {r r' : Registers} {s : Selector}
    (h : r'.rest .none = r.rest .none) :
    (code.moved taken r').rest s = (code.moved taken r).rest s :=
  Registers.rest_of_rest_none (by rw [rest_moved, h, rest_moved]) s

end Code

/-- Other operations than DI, EI and RETI leave the master enable to the request. -/
theorem BaseOp.enable_of_ne {op : BaseOp} (h₁ : op ≠ .di) (h₂ : op ≠ .ei) (h₃ : op ≠ .reti)
    (ime : Bool) (request : ImeRequest) : op.enable ime request = (ime, request) := by
  cases op with
  | di => exact absurd rfl h₁
  | ei => exact absurd rfl h₂
  | reti => exact absurd rfl h₃
  | _ => rfl

/-- Carried on, a request stays, or it expires and takes effect. -/
theorem ImeRequest.settle_cases (request : ImeRequest) (ime : Bool) :
    (request.settle ime).2.value? = request.value? ∨
      ∃ e, request = .armed e ∧ (request.settle ime).2 = .none ∧ (request.settle ime).1 = e := by
  obtain ⟨_ | e, _ | _⟩ := request
  · exact .inl rfl
  · exact .inl rfl
  · exact .inl rfl
  · exact .inr ⟨e, rfl, rfl, rfl⟩

namespace Machine

variable {σ : Type} [Bus σ] {m m₀ m' : Machine σ} {op : BaseOp} {r : Registers}
  {operands : List UInt8} {data sample : List Access} {code : Code}

/-- Only HALT halts, and only STOP before a zero byte stops. -/
theorem Executes.halts (h : m.Executes op r operands data sample m')
    (he : m.execBase op = .ok m') (hr : m.cpu.regs = { r with pc := r.pc + 1 })
    (hh : m.cpu.halted = false) (hs : m.cpu.stopped = false) :
    m'.cpu.halted = decide (op = .halt) ∧
      m'.cpu.stopped = decide (op = .stop ∧ operands = [0]) := by
  by_cases h₁ : op = .halt
  · subst h₁
    cases he
    exact ⟨rfl, hs⟩
  by_cases h₂ : op = .stop
  · subst h₂
    cases he
    obtain ⟨next, rfl, -⟩ := h.leads
    have hp : m.cpu.regs.pc = r.pc + 1 := by rw [hr]
    have hn : next = (Bus.read m.bus m.cpu.regs.pc).1 := by
      rw [hp]
      exact h.performs.eq_of_read
    subst hn
    unfold execStop
    dsimp only
    split
    · next hz => exact ⟨hh, by simpa using hz⟩
    · next hz => exact ⟨hh, by simpa [hs] using hz⟩
  · obtain ⟨hh', hs'⟩ := h.running h₁ h₂
    rw [hh', hs', hh, hs]
    simp [h₁, h₂]

/-- What is known of the operation of a code that is fetched. -/
theorem Begins.exists_frames (h : m.Begins code m₀) :
    ∃ m₁ operands data sample, m₀.execCode code = .ok m₁ ∧
      Performs m₀.bus (fetches m₀.cpu.regs.pc operands ++ (data ++ sample)) m₁.bus ∧
      m₀.Frames code.kept code.destination
        (code.moved (code.isTaken m₀.cpu.flags) m₀.cpu.regs) m₁ ∧
      (m₁.cpu.ime, m₁.cpu.request) = code.operation.enable m.cpu.ime m.cpu.request ∧
      m₁.cpu.halted = decide (code.operation = .halt) ∧
      m₁.cpu.stopped = decide (code.operation = .stop ∧ operands = [0]) := by
  have hime : m₀.cpu.ime = m.cpu.ime := by rw [h.cpu]
  have hreq : m₀.cpu.request = m.cpu.request := by rw [h.cpu]
  have hh : m₀.cpu.halted = false := by rw [h.cpu]
  have hs : m₀.cpu.stopped = false := by rw [h.cpu, ← h.running]
  rw [← hime, ← hreq]
  cases code with
  | base b =>
    have hv := BaseOp.isValid_decode b
    have hb := h.decoded b rfl
    have hr : m₀.cpu.regs = { m.cpu.regs with pc := m.cpu.regs.pc + 1 } := by
      rw [h.cpu]
      rfl
    have hpc : m₀.cpu.regs.pc = m.cpu.regs.pc + 1 := by rw [hr]
    obtain ⟨m₁, operands, data, sample, hm, hx⟩ := exists_executes hr hv hb
    obtain ⟨m₂, hm', hf⟩ := m₀.exists_frames hv hb
    obtain rfl : m₁ = m₂ := Except.ok.inj (hm.symm.trans hm')
    refine ⟨m₁, operands, data, sample, hm, ?_, hf, hx.enable, hx.halts hm hr hh hs⟩
    rw [hpc, ← List.append_assoc]
    exact hx.performs
  | bit b =>
    have hv := BitOp.isValid_decode b
    obtain ⟨m₁, data, hm, ha, -⟩ := exists_execBit m₀ hv
    obtain ⟨m₂, hm', hf⟩ := m₀.exists_frames_bit hv
    obtain rfl : m₁ = m₂ := Except.ok.inj (hm.symm.trans hm')
    obtain ⟨hi, hq, hh', hs'⟩ := Cpu.fields_of_control ha.control
    refine ⟨m₁, [], data, [], hm, ?_, hf, ?_, hh'.trans hh, hs'.trans hs⟩
    · rw [List.append_nil]
      exact ha.performs
    · rw [hi, hq]
      rfl

/-- The frame law of a step that fetches a code. It keeps the flags that `Code.kept` names and
clears the low nibble of F. Of the other registers it writes only to the destination, apart from how
`Code.moved` moves HL or SP. It halts for HALT alone, and stops for STOP before a zero byte alone. A
request for the master enable is changed by DI, EI and RETI, or it expires. -/
theorem step_frame (m : Machine (Traced σ)) {code : Code} (h : m.code? = some code) :
    ∃ n m' polls operands data sample, m.step = .ok (n, m') ∧
      Polls (m.cpu.ime.toNat + m.cpu.halted.toNat) polls ∧
      m'.bus.history = m.bus.history ++ polls ++ fetches m.cpu.regs.pc (code.bytes ++ operands) ++
        data ++ sample ∧
      code.kept.restrict (.ofByte m'.cpu.regs.f) = code.kept.restrict (.ofByte m.cpu.regs.f) ∧
      m'.cpu.regs.f &&& 0x0F = 0 ∧
      m'.cpu.regs.rest code.destination =
        (code.moved (code.isTaken (.ofByte m.cpu.regs.f)) m.cpu.regs).rest code.destination ∧
      m'.cpu.halted = decide (code.operation = .halt) ∧
      m'.cpu.stopped = decide (code.operation = .stop ∧ operands = [0]) ∧
      (code.operation ≠ .di → code.operation ≠ .ei → code.operation ≠ .reti →
        m'.cpu.request.value? = m.cpu.request.value? ∨
          ∃ e, m.cpu.request = .armed e ∧ m'.cpu.request = .none ∧ m'.cpu.ime = e) := by
  obtain ⟨m₀, hb⟩ := exists_begins h
  obtain ⟨m₁, operands, data, sample, he, hp, hf, hen, hh, hs⟩ := hb.exists_frames
  obtain ⟨m', hm, hbus, hc⟩ := hb.exists_step he
  obtain ⟨polls, hl, hp'⟩ := hb.performs_step hp
  have hfl : m₀.cpu.flags = .ofByte m.cpu.regs.f := by rw [hb.cpu]
  have hr : m₀.cpu.regs =
      { m.cpu.regs with pc := m.cpu.regs.pc + UInt16.ofNat code.bytes.length } := by rw [hb.cpu]
  have hff := hf.flags
  have hfr := hf.regs
  rw [hfl] at hff hfr
  refine ⟨_, m', polls, operands, data, sample, hm, hl, ?_, ?_, ?_, ?_, ?_, ?_, ?_⟩
  · rw [hbus, hp'.history_eq]
    simp only [List.append_assoc]
  · rw [hc, Flags.ofByte_toByte]
    exact hff
  · rw [hc]
    exact Flags.toByte_and_low _
  · -- Neither F, which the step writes back, nor the program counter is looked at.
    have hr₀ : m₀.cpu.regs.rest .none = m.cpu.regs.rest .none :=
      Registers.rest_of_pc (by rw [hr]) .none
    rw [hc, Registers.rest_setF, hfr, Code.rest_moved_congr hr₀]
  · rw [hc]
    exact hh
  · rw [hc]
    exact hs
  · intro h₁ h₂ h₃
    rw [BaseOp.enable_of_ne h₁ h₂ h₃, Prod.mk.injEq] at hen
    rw [hc, hen.1, hen.2]
    exact ImeRequest.settle_cases _ _

/-- A load through HL that increments it at the last address takes HL to 0 and keeps the flags. -/
theorem step_frame_of_ldi :
    let m : Machine (Traced FlatMemory) :=
      { cpu := { regs := { f := 0x90, h := 0xFF, l := 0xFF } }, bus := { bus := .filled 0x2A } }
    m.code? = some (.base 0x2A) ∧ ∃ n m', m.step = .ok (n, m') ∧ m'.cpu.regs.hl = 0 ∧
      Flags.ofByte m'.cpu.regs.f = .ofByte 0x90 := by
  intro m
  have hcode : m.fetchCode.1 = .base 0x2A := by
    have ho : m.fetchOpcode.1 = 0x2A := FlatMemory.get_filled 0x2A 0
    rw [fetchCode_of_ne (by rw [ho]; decide), ho]
  have hc : m.code? = some (.base 0x2A) := congrArg some hcode
  obtain ⟨n, m', -, -, -, -, hm, -, -, hf, -, hr, -⟩ := step_frame m hc
  have hk : (Code.base 0x2A).kept = .every := by decide
  have hd : (Code.base 0x2A).destination = .a := by decide
  have hv : (Code.base 0x2A).moved ((Code.base 0x2A).isTaken (.ofByte m.cpu.regs.f)) m.cpu.regs =
      { f := 0x90 } := by decide
  rw [hk, Flags.restrict_every, Flags.restrict_every] at hf
  rw [hd, hv] at hr
  have hh : m'.cpu.regs.h = 0 := congrArg Registers.h hr
  have hl : m'.cpu.regs.l = 0 := congrArg Registers.l hr
  refine ⟨hc, n, m', hm, ?_, hf⟩
  rw [Registers.hl, hh, hl]
  rfl

end Machine

end DotMatrix
