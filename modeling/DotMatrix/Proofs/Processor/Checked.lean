import Mathlib.Algebra.GroupWithZero.Nat
import Mathlib.Algebra.Ring.Int.Defs
import DotMatrix.Proofs.Processor.Accounting

/-!
# Arithmetic in fixed widths

The flags of an instruction come from exact numbers. In registers of 8, 16 or 32 bits these have
room, and no byte is shifted by its width or more.

* `fits` and `fitsSigned` pass a number on if a register holds it, and are at fault otherwise.
* `Arithmetic.addChecked` and its like take every sum, difference and product through them, at the
  width that it has in the hardware; `Arithmetic.addChecked_eq` and its like say that nothing is at
  fault and the results are the exact ones.
* `Machine.stepChecked` is a step with this arithmetic. `Machine.step_checked` says that no step is
  at fault, on any bus and in any state.
-/

namespace DotMatrix

/-! ### Widths -/

/-- A number, if a register of so many bits holds it. -/
def fits (bits n : Nat) : Except Fault Nat :=
  if n < 2 ^ bits then .ok n else .error (.overflow bits)

/-- An integer, if a register of so many bits holds it in two's complement. -/
def fitsSigned (bits : Nat) (i : Int) : Except Fault Int :=
  if -2 ^ bits ≤ 2 * i ∧ 2 * i < 2 ^ bits then .ok i else .error (.overflow bits)

theorem fits_of_lt {bits n : Nat} (h : n < 2 ^ bits) : fits bits n = .ok n := if_pos h

theorem fitsSigned_of_mem {bits : Nat} {i : Int} (h : -2 ^ bits ≤ 2 * i ∧ 2 * i < 2 ^ bits) :
    fitsSigned bits i = .ok i := if_pos h

/-- The sum of the low nibbles of two bytes and a carry, in 8 bits. -/
def Byte.nibbleSumChecked (a b : UInt8) (c : Bool) : Except Fault Nat := do
  let nibbles ← fits 8 (a.toNat % 16 + b.toNat % 16)
  fits 8 (nibbles + c.toNat)

/-- The difference of the low nibbles of two bytes and a borrow, in 16 bits with a sign. -/
def Byte.nibbleDifferenceChecked (a b : UInt8) (c : Bool) : Except Fault Int := do
  let nibbles ← fitsSigned 16 ((a.toNat % 16 : Nat) - (b.toNat % 16 : Nat))
  fitsSigned 16 (nibbles - c.toNat)

/-- Whether the low nibbles of `a + b` carry into bit 4, by a sum of 8 bits. -/
def Byte.halfCarriesChecked (a b : UInt8) : Except Fault Bool := do
  let nibbles ← fits 8 (a.toNat % 16 + b.toNat % 16)
  return decide (0x10 ≤ nibbles)

/-- Whether the low twelve bits of `a + b` carry into bit 12, by a sum of 16 bits. -/
def Word.halfCarriesChecked (a b : UInt16) : Except Fault Bool := do
  let parts ← fits 16 (a.toNat % 0x1000 + b.toNat % 0x1000)
  return decide (0x1000 ≤ parts)

theorem Byte.nibbleSumChecked_eq (a b : UInt8) (c : Bool) :
    nibbleSumChecked a b c = .ok (nibbleSum a b c) := by
  have hc := Bool.toNat_le c
  have h₁ : fits 8 (a.toNat % 16 + b.toNat % 16) = .ok (a.toNat % 16 + b.toNat % 16) :=
    fits_of_lt (by omega)
  have h₂ : fits 8 (a.toNat % 16 + b.toNat % 16 + c.toNat) = .ok (nibbleSum a b c) :=
    fits_of_lt (by omega)
  rw [nibbleSumChecked, h₁]
  exact h₂

theorem Byte.nibbleDifferenceChecked_eq (a b : UInt8) (c : Bool) :
    nibbleDifferenceChecked a b c = .ok (nibbleDifference a b c) := by
  have hc := Bool.toNat_le c
  have h₁ : fitsSigned 16 ((a.toNat % 16 : Nat) - (b.toNat % 16 : Nat)) =
      .ok ((a.toNat % 16 : Nat) - (b.toNat % 16 : Nat) : Int) := fitsSigned_of_mem (by omega)
  have h₂ : fitsSigned 16 ((a.toNat % 16 : Nat) - (b.toNat % 16 : Nat) - c.toNat) =
      .ok (nibbleDifference a b c) := fitsSigned_of_mem (by omega)
  rw [nibbleDifferenceChecked, h₁]
  exact h₂

theorem Byte.halfCarriesChecked_eq (a b : UInt8) :
    halfCarriesChecked a b = .ok (halfCarries a b) := by
  have h : fits 8 (a.toNat % 16 + b.toNat % 16) = .ok (a.toNat % 16 + b.toNat % 16) :=
    fits_of_lt (by omega)
  rw [halfCarriesChecked, h]
  rfl

theorem Word.halfCarriesChecked_eq (a b : UInt16) :
    halfCarriesChecked a b = .ok (halfCarries a b) := by
  have h : fits 16 (a.toNat % 0x1000 + b.toNat % 0x1000) =
      .ok (a.toNat % 0x1000 + b.toNat % 0x1000) := fits_of_lt (by omega)
  rw [halfCarriesChecked, h]
  rfl

/-! ### Byte and word arithmetic -/

namespace Arithmetic

/-- The sum of A, a byte and a carry: in 16 bits, and in 8 for the low nibbles. -/
def addChecked (basis : CarryBasis) (a v : UInt8) (c : Bool) : Except Fault (UInt8 × Flags) := do
  let operands ← fits 16 (a.toNat + v.toNat)
  let sum ← fits 16 (operands + c.toNat)
  let result := UInt8.ofNat sum
  let folded := v + Byte.ofCarry c
  let halfCarry ←
    match basis with
    | .operands => (Byte.nibbleSumChecked a v c).map fun n => decide (0x10 ≤ n)
    | .folded => Byte.halfCarriesChecked a folded
    | .updated => Byte.halfCarriesChecked result folded
  let carry :=
    match basis with
    | .operands => decide (0x100 ≤ sum)
    | .folded => Byte.carries a folded
    | .updated => Byte.carries result folded
  return (result,
    { zero := result == 0, subtract := false, halfCarry := halfCarry, carry := carry })

/-- The difference of A, a byte and a borrow, in 16 bits with a sign. -/
def subChecked (basis : CarryBasis) (a v : UInt8) (c : Bool) : Except Fault (UInt8 × Flags) := do
  let operands ← fitsSigned 16 ((a.toNat : Int) - v.toNat)
  let difference ← fitsSigned 16 (operands - c.toNat)
  let result := UInt8.ofInt difference
  let folded := v + Byte.ofCarry c
  let halfCarry ←
    match basis with
    | .operands => (Byte.nibbleDifferenceChecked a v c).map fun n => decide (n < 0)
    | .folded => pure (Byte.halfBorrows a folded)
    | .updated => pure (Byte.halfBorrows result folded)
  let carry :=
    match basis with
    | .operands => decide (difference < 0)
    | .folded => Byte.borrows a folded
    | .updated => Byte.borrows result folded
  return (result,
    { zero := result == 0, subtract := true, halfCarry := halfCarry, carry := carry })

/-- A byte plus one; the half carry is a sum of 8 bits. -/
def incChecked (rules : FlagRules) (v : UInt8) (fl : Flags) : Except Fault (UInt8 × Flags) := do
  let result := v + 1
  let halfCarry ←
    match rules.carrySource with
    | .operands => Byte.halfCarriesChecked v 1
    | .postResult => Byte.halfCarriesChecked result 1
  return (result, { fl with zero := result == 0, subtract := false, halfCarry := halfCarry })

/-- The sum of two words; the half carry is a sum of 16 bits. -/
def addWordsChecked (x y : UInt16) (fl : Flags) : Except Fault (UInt16 × Flags) := do
  let halfCarry ← Word.halfCarriesChecked x y
  return (x + y,
    { fl with subtract := false, halfCarry := halfCarry, carry := Word.carries x y })

/-- A word moved by a signed byte; the half carry is a sum of 8 bits. -/
def offsetChecked (w : UInt16) (n : UInt8) : Except Fault (UInt16 × Flags) := do
  let halfCarry ← Byte.halfCarriesChecked (Word.low w) n
  return (Word.addSigned w n,
    { zero := false
      subtract := false
      halfCarry := halfCarry
      carry := Byte.carries (Word.low w) n })

theorem addChecked_eq (basis : CarryBasis) (a v : UInt8) (c : Bool) :
    addChecked basis a v c = .ok (add basis a v c) := by
  have hsum : Byte.sum a v c < 2 ^ 16 := Nat.lt_of_le_of_lt (Byte.sum_le a v c) (by decide)
  have h₁ : fits 16 (a.toNat + v.toNat) = .ok (a.toNat + v.toNat) :=
    fits_of_lt (Nat.lt_of_le_of_lt (Nat.le_add_right _ _) hsum)
  have h₂ : fits 16 (a.toNat + v.toNat + c.toNat) = .ok (Byte.sum a v c) := fits_of_lt hsum
  cases basis <;>
    simp only [addChecked, h₁, h₂, Byte.nibbleSumChecked_eq, Byte.halfCarriesChecked_eq, bind,
      Except.bind, pure, Except.pure] <;>
    rfl

theorem subChecked_eq (basis : CarryBasis) (a v : UInt8) (c : Bool) :
    subChecked basis a v c = .ok (sub basis a v c) := by
  have hmem (c : Bool) :
      -2 ^ 16 ≤ 2 * Byte.difference a v c ∧ 2 * Byte.difference a v c < 2 ^ 16 := by
    have hb := Byte.difference_bounds a v c
    omega
  have hoperands : Byte.difference a v false = (a.toNat : Int) - v.toNat := Int.sub_zero _
  have h₁ : fitsSigned 16 ((a.toNat : Int) - v.toNat) = .ok ((a.toNat : Int) - v.toNat) :=
    fitsSigned_of_mem (hoperands ▸ hmem false)
  have h₂ : fitsSigned 16 ((a.toNat : Int) - v.toNat - c.toNat) = .ok (Byte.difference a v c) :=
    fitsSigned_of_mem (hmem c)
  cases basis <;>
    simp only [subChecked, h₁, h₂, Byte.nibbleDifferenceChecked_eq, bind, Except.bind, pure,
      Except.pure] <;>
    rfl

theorem incChecked_eq (rules : FlagRules) (v : UInt8) (fl : Flags) :
    incChecked rules v fl = .ok (inc rules v fl) := by
  unfold incChecked inc
  simp only [Byte.halfCarriesChecked_eq]
  cases rules.carrySource <;> rfl

theorem addWordsChecked_eq (x y : UInt16) (fl : Flags) :
    addWordsChecked x y fl = .ok (addWords x y fl) := by
  rw [addWordsChecked, Word.halfCarriesChecked_eq]
  rfl

theorem offsetChecked_eq (w : UInt16) (n : UInt8) : offsetChecked w n = .ok (offset w n) := by
  rw [offsetChecked, Byte.halfCarriesChecked_eq]
  rfl

end Arithmetic

/-- The new A and flags of an operation on A and a byte, every number within its width. -/
def ByteOp.applyChecked (op : ByteOp) (rules : FlagRules) (src : Operand) (a v : UInt8)
    (fl : Flags) : Except Fault (UInt8 × Flags) :=
  match op with
  | .add => Arithmetic.addChecked (rules.basis src) a v false
  | .adc => Arithmetic.addChecked (rules.basis src) a v fl.carry
  | .sub => Arithmetic.subChecked (rules.basis src) a v false
  | .sbc => Arithmetic.subChecked (rules.basis src) a v fl.carry
  | .cp => do
    let (_, fl) ← Arithmetic.subChecked (rules.basis src) a v false
    return (a, fl)
  | .and | .xor | .or => .ok (op.apply rules src a v fl)

theorem ByteOp.applyChecked_eq (op : ByteOp) (rules : FlagRules) (src : Operand) (a v : UInt8)
    (fl : Flags) : op.applyChecked rules src a v fl = .ok (op.apply rules src a v fl) := by
  cases op with
  | add | adc => exact Arithmetic.addChecked_eq ..
  | sub | sbc => exact Arithmetic.subChecked_eq ..
  | cp =>
    rw [applyChecked, Arithmetic.subChecked_eq]
    rfl
  | and | xor | or => rfl

/-! ### Interrupts -/

namespace Interrupt

/-- The address of the handler of a line, in 16 bits. -/
def vectorChecked (i : Nat) : Except Fault UInt16 := do
  let distance ← fits 16 (i * 8)
  let address ← fits 16 (0x40 + distance)
  return UInt16.ofNat address

/-- The byte with only the bit of a line set. -/
def maskChecked (i : Nat) : Except Fault UInt8 :=
  if i < 8 then .ok (BitOp.mask i) else .error (.badBit i)

theorem lt_of_first? {v : UInt8} {i : Nat} (h : first? v = some i) : i < 5 :=
  List.mem_range.1 (List.mem_of_find?_eq_some h)

theorem vectorChecked_of_lt {i : Nat} (h : i < 5) : vectorChecked i = .ok (vector i) := by
  have h₁ : fits 16 (i * 8) = .ok (8 * i) := by
    rw [Nat.mul_comm]
    exact fits_of_lt (by omega)
  have h₂ : fits 16 (0x40 + 8 * i) = .ok (0x40 + 8 * i) := fits_of_lt (by omega)
  simp only [vectorChecked, h₁, h₂, bind, Except.bind]
  rfl

theorem maskChecked_of_lt {i : Nat} (h : i < 5) : maskChecked i = .ok (BitOp.mask i) :=
  if_pos (by omega)

end Interrupt

/-! ### Steps -/

namespace Machine

variable {σ : Type} [Bus σ]

/-- Add to HL, every number within its width. -/
def execAddHlChecked (m : Machine σ) (s : Selector) : Except Fault (Machine σ) := do
  let w ← m.wordReg s
  let (w, fl) ← Arithmetic.addWordsChecked m.cpu.regs.hl w m.cpu.flags
  return (m.mapRegs fun r => r.setHl w).setFlags fl

/-- The sum of SP and the signed byte after the opcode, every number within its width. -/
def execSpOffsetChecked (m : Machine σ) : Except Fault (UInt16 × Machine σ) := do
  let (n, m) := m.fetchByte
  let (w, fl) ← Arithmetic.offsetChecked m.cpu.regs.sp n
  return (w, m.setFlags fl)

/-- Execute an operation of the first page, every number within its width. The operations that are
not listed take sums and differences modulo the width alone. -/
def execBaseChecked (m : Machine σ) : BaseOp → Except Fault (Machine σ)
  | .inc o =>
    m.modifyOperand o fun v fl => do
      let (v, fl) ← Arithmetic.incChecked m.cpu.rules v fl
      return (some v, fl)
  | .byteOp op src => do
    let (v, m) ← m.readOperand src
    return m.setResult (← op.applyChecked m.cpu.rules src m.cpu.regs.a v m.cpu.flags)
  | .addHl s => m.execAddHlChecked s
  | .addSpOffset => do
    let (w, m) ← m.execSpOffsetChecked
    return m.mapRegs fun r => { r with sp := w }
  | .loadHlSpOffset => do
    let (w, m) ← m.execSpOffsetChecked
    return m.mapRegs fun r => r.setHl w
  | op => m.execBase op

/-- The operation of a fetched opcode, executed with every number within its width. -/
def dispatchChecked (m : Machine σ) (opcode : UInt8) : Except Fault (Code × Machine σ) :=
  match BaseOp.decode opcode with
  | .bitPage =>
    let (b, m) := m.fetchByte
    do return (.bit b, ← m.execBit (BitOp.decode b))
  | op => do return (.base opcode, ← m.execBaseChecked op)

/-- An instruction with every number within its width. The counter of accesses starts at zero and
only grows, so it is enough to look at it in the end. -/
def executeNextChecked (m : Machine σ) : Except Fault (Nat × Machine σ) := do
  let (opcode, m₀) := m.fetchOpcode
  let (code, m₁) ← m₀.dispatchChecked opcode
  let accesses ← fits 32 m₁.cpu.accesses
  let counted ← fits 32 (accesses * 4)
  let cycles ← fits 32 (counted + 4)
  return (cycles, (m₁.complete m.cpu.regs.pc code).2)

/-- Enter the handler of a line that has a vector and a mask. -/
def enterHandlerChecked (m : Machine σ) (i : Nat) : Except Fault (Machine σ) := do
  let _ ← Interrupt.vectorChecked i
  let _ ← Interrupt.maskChecked i
  return m.enterHandler i

/-- One step with every number within its width, and its cycles. -/
def stepChecked (m : Machine σ) : Except Fault (Nat × Machine σ) :=
  match m.turn with
  | (.sampleLines, m) => .ok (4, m.sampleLines)
  | (.enterHandler i, m) => do return (20, ← m.enterHandlerChecked i)
  | (.wait, m) => .ok (4, m)
  | (.execute, m) => m.executeNextChecked

variable (m : Machine σ)

omit [Bus σ] in
theorem execAddHlChecked_eq (s : Selector) : m.execAddHlChecked s = m.execAddHl s := by
  unfold execAddHlChecked execAddHl
  simp only [Arithmetic.addWordsChecked_eq]
  rfl

theorem execSpOffsetChecked_eq : m.execSpOffsetChecked = .ok m.execSpOffset := by
  unfold execSpOffsetChecked
  simp only [Arithmetic.offsetChecked_eq]
  rfl

/-- No operation leaves a width. -/
theorem execBaseChecked_eq (op : BaseOp) : m.execBaseChecked op = m.execBase op := by
  cases op with
  | inc o =>
    unfold execBaseChecked execBase
    simp only [Arithmetic.incChecked_eq]
    rfl
  | byteOp op src =>
    unfold execBaseChecked execBase
    simp only [ByteOp.applyChecked_eq]
    rfl
  | addHl s => exact m.execAddHlChecked_eq s
  | addSpOffset | loadHlSpOffset =>
    unfold execBaseChecked
    rw [execSpOffsetChecked_eq]
    rfl
  | _ => rfl

theorem dispatchChecked_eq (opcode : UInt8) : m.dispatchChecked opcode = m.dispatch opcode := by
  unfold dispatchChecked dispatch
  cases BaseOp.decode opcode with
  | bitPage => rfl
  | _ =>
    dsimp only
    rw [execBaseChecked_eq]

theorem executeNextChecked_eq : m.executeNextChecked = m.executeNext := by
  obtain ⟨m', operands, data, sample, hm, hc⟩ := m.exists_completes
  have hle := hc.cycles_bounds.2
  rw [executeNext_eq] at hm ⊢
  unfold executeNextChecked
  simp only [dispatchChecked_eq]
  cases hd : m.fetchOpcode.2.dispatch m.fetchOpcode.1 with
  | error e =>
    rw [hd] at hm
    cases hm
  | ok p =>
    obtain ⟨code, m₁⟩ := p
    rw [hd] at hm
    -- The cycles of the completed instruction bound the counter.
    have hp : m₁.complete m.cpu.regs.pc code = (m'.cpu.last.cycles, m') := Except.ok.inj hm
    have hn : m₁.cpu.accesses * 4 + 4 = m'.cpu.last.cycles := congrArg Prod.fst hp
    have h₁ : fits 32 m₁.cpu.accesses = .ok m₁.cpu.accesses := fits_of_lt (by omega)
    have h₂ : fits 32 (m₁.cpu.accesses * 4) = .ok (m₁.cpu.accesses * 4) := fits_of_lt (by omega)
    have h₃ : fits 32 (m₁.cpu.accesses * 4 + 4) = .ok (m₁.cpu.accesses * 4 + 4) :=
      fits_of_lt (by omega)
    simp only [h₁, h₂, h₃, bind, Except.bind, pure, Except.pure]
    rfl

/-- The line of a handler that is entered has a vector and a mask. -/
theorem enterHandlerChecked_of_lt {i : Nat} (h : i < 5) :
    m.enterHandlerChecked i = .ok (m.enterHandler i) := by
  rw [enterHandlerChecked, Interrupt.vectorChecked_of_lt h, Interrupt.maskChecked_of_lt h]
  rfl

theorem lt_of_firstInterrupt {i : Nat} (h : m.firstInterrupt.1 = some i) : i < 5 := by
  unfold firstInterrupt at h
  split at h
  · exact Interrupt.lt_of_first? h
  · cases h

/-- No step is at fault: every operand is of the kind that its operation accepts, and every number
stays within its width. -/
theorem step_checked : ∃ n m', m.step = .ok (n, m') ∧ m.stepChecked = .ok (n, m') := by
  obtain ⟨n, m', hm, -⟩ := m.exists_takes
  refine ⟨n, m', hm, ?_⟩
  rw [← hm]
  have hd := m.decides_turn
  unfold stepChecked step
  generalize m.turn = t at hd
  cases hd with
  | sampleLines | wait => rfl
  | enterHandler i m₁ polls running enabled serves =>
    dsimp only
    rw [enterHandlerChecked_of_lt m₁ (m.lt_of_firstInterrupt serves)]
    rfl
  | execute m₁ => exact m₁.executeNextChecked_eq

end Machine

end DotMatrix
