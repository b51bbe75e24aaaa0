import DotMatrix.Proofs.Processor.Fetch
import DotMatrix.Proofs.Processor.MultiByte

/-!
# Sums of words

A word is added as its two bytes are: ADD of the low bytes, and then ADC of the high bytes, with
flags from the operands. The signed byte that is added to SP is such a word, too, with 00 or FF as
its high byte.

* `Word.ofSignedByte` is the word of a signed byte.
* `addBytewise` adds two words byte by byte, and `exact_addBytewise` says that this is exact.
  `addWords_eq` and `offset_eq` compare the sums of words with it.
* `Begins.addHl` and `Begins.spOffset` are the steps that take a sum.
* `word_sums` puts it together.
-/

namespace DotMatrix

/-- The word with the two's-complement value of a byte. -/
def Word.ofSignedByte (n : UInt8) : UInt16 := ofBytes (if n.toNat < 0x80 then 0x00 else 0xFF) n

theorem Word.ofSigned_signed (n : UInt8) : ofSigned (Byte.signed n) = ofSignedByte n := by
  revert n
  refine Byte.forall_of_fin ?_
  decide +kernel

theorem Byte.signed_eq (n : UInt8) :
    signed n = if n.toNat < 0x80 then (n.toNat : Int) else n.toNat - 0x100 := by
  revert n
  refine forall_of_fin ?_
  decide +kernel

/-- A word moved by a signed byte, as a number. -/
theorem Word.toNat_addSigned (w : UInt16) (n : UInt8) :
    ((addSigned w n).toNat : Int) = (w.toNat + Byte.signed n) % 0x10000 := by
  have hw := w.toNat_lt
  have hn := n.toNat_lt
  rw [addSigned, ofSigned_signed, UInt16.toNat_add, ofSignedByte, toNat_ofBytes, Byte.signed_eq]
  split
  · rw [UInt8.toNat_zero]
    omega
  · rw [show (0xFF : UInt8).toNat = 0xFF from rfl]
    omega

/-- The two bytes of a sum of words, each with the flags of its addition: ADD of the low bytes, and
then ADC of the high bytes. -/
structure BytewiseSum where
  low : UInt8 × Flags
  high : UInt8 × Flags

/-- The word that results. -/
def BytewiseSum.word (s : BytewiseSum) : UInt16 := Word.ofBytes s.high.1 s.low.1

/-- The result and the flags of the high byte hold the sum of two words, and that of their low
twelve bits. -/
structure BytewiseSum.Exact (s : BytewiseSum) (x y : UInt16) : Prop where
  word : x.toNat + y.toNat = s.word.toNat + 0x10000 * s.high.2.carry.toNat
  low : x.toNat % 0x1000 + y.toNat % 0x1000 =
    s.word.toNat % 0x1000 + 0x1000 * s.high.2.halfCarry.toNat

/-- Add two words byte by byte. -/
def addBytewise (rules : FlagRules) (src : Operand) (x y : UInt16) (fl : Flags) : BytewiseSum :=
  let low := ByteOp.add.apply rules src (Word.low x) (Word.low y) fl
  { low := low
    high := ByteOp.adc.apply rules src (Word.high x) (Word.high y) low.2 }

namespace Arithmetic

/-- A decision on numbers is a flag, if the flag is set when it holds. -/
theorem decide_eq_flag {p : Prop} [Decidable p] {b : Bool} (h : p ↔ b.toNat = 1) :
    decide p = b := by
  cases b <;> simpa using h

variable {rules : FlagRules} (h : rules.carrySource = .operands) (src : Operand) (x y : UInt16)
  (fl : Flags)

include h

/-- ADC carries what ADD leaves of the low bytes over into the high bytes. -/
theorem exact_addBytewise : (addBytewise rules src x y fl).Exact x y := by
  have hl : AddsExactly (Word.low x) (Word.low y) false (addBytewise rules src x y fl).low :=
    ByteOp.addsExactly_adc h src _ _ { fl with carry := false }
  have hh : AddsExactly (Word.high x) (Word.high y) (addBytewise rules src x y fl).low.2.carry
      (addBytewise rules src x y fl).high := ByteOp.addsExactly_adc h src ..
  generalize addBytewise rules src x y fl = s at hl hh
  have hlow := hl.byte
  have hbyte := hh.byte
  have hnibble := hh.nibble
  have hr := s.low.1.toNat_lt
  rw [Word.toNat_low, Word.toNat_low, Bool.toNat_false] at hlow
  rw [Word.toNat_high, Word.toNat_high] at hbyte hnibble
  constructor
  · rw [BytewiseSum.word, Word.toNat_ofBytes]
    omega
  · rw [BytewiseSum.word, Word.toNat_ofBytes]
    omega

theorem word_addBytewise : (addBytewise rules src x y fl).word = x + y := by
  have hw := (exact_addBytewise h src x y fl).word
  have hr := (addBytewise rules src x y fl).word.toNat_lt
  apply UInt16.toNat_inj.1
  rw [UInt16.toNat_add]
  omega

theorem halfCarry_addBytewise :
    Word.halfCarries x y = (addBytewise rules src x y fl).high.2.halfCarry := by
  have hw := (exact_addBytewise h src x y fl).low
  have hc := Bool.toNat_le (addBytewise rules src x y fl).high.2.halfCarry
  exact decide_eq_flag (by omega)

theorem carry_addBytewise :
    Word.carries x y = (addBytewise rules src x y fl).high.2.carry := by
  have hw := (exact_addBytewise h src x y fl).word
  have hr := (addBytewise rules src x y fl).word.toNat_lt
  have hc := Bool.toNat_le (addBytewise rules src x y fl).high.2.carry
  exact decide_eq_flag (by omega)

/-- A sum of words is a bytewise sum; the flags are those of the high bytes, but for the zero
flag. -/
theorem addWords_eq :
    addWords x y fl =
      ((addBytewise rules src x y fl).word,
        { (addBytewise rules src x y fl).high.2 with zero := fl.zero }) := by
  rw [word_addBytewise h, addWords, halfCarry_addBytewise h src x y fl,
    carry_addBytewise h src x y fl]
  rfl

/-- A word moved by a signed byte is a bytewise sum; the flags are those of the low bytes, but for
the zero flag. -/
theorem offset_eq (n : UInt8) :
    offset x n =
      ((addBytewise rules src x (Word.ofSignedByte n) fl).word,
        { (addBytewise rules src x (Word.ofSignedByte n) fl).low.2 with zero := false }) := by
  rw [word_addBytewise h, offset, Word.addSigned, Word.ofSigned_signed, addBytewise,
    Word.ofSignedByte, Word.low_ofBytes, ByteOp.apply, FlagRules.basis_of_operands h]
  simp only [add, Byte.halfCarries, Byte.carries, Byte.nibbleSum, Byte.sum, Bool.toNat_false,
    Nat.add_zero]
  rfl

end Arithmetic

/-! ### Steps -/

namespace Machine

variable {σ : Type} [Bus σ] {m m₀ : Machine (Traced σ)} {code : Code}

/-- The step of an addition to HL. -/
theorem Begins.addHl {s : Selector} (h : m.Begins code m₀) (hd : code.operation = .addHl s)
    (hs : s ∈ [.bc, .de, .hl, .sp]) :
    ∃ y m', m.cpu.regs.word s = .ok y ∧ m.StepsBy code.bytes [] 4 m' ∧
      let r := Arithmetic.addWords m.cpu.regs.hl y (.ofByte m.cpu.regs.f)
      m'.cpu.regs =
        { m.cpu.regs.setHl r.1 with f := r.2.toByte, pc := m.cpu.regs.pc + 1 } := by
  obtain ⟨y, hy, hy₀⟩ : ∃ y, m.cpu.regs.word s = .ok y ∧ m₀.cpu.regs.word s = .ok y := by
    rw [h.cpu]
    simp only [List.mem_cons, List.not_mem_nil, or_false] at hs
    rcases hs with rfl | rfl | rfl | rfl <;> exact ⟨_, rfl, rfl⟩
  have hw : m₀.wordReg s = .ok y := by rw [wordReg, hy₀, Fault.ofWidth_ok]
  let r := Arithmetic.addWords m₀.cpu.regs.hl y m₀.cpu.flags
  have he : m₀.execCode code = .ok ((m₀.mapRegs fun r' => r'.setHl r.1).setFlags r.2) := by
    rw [execCode_of_operation hd (by simp)]
    simp only [execBase, execAddHl, hw, bind, Except.bind, pure, Except.pure, r]
  obtain ⟨m', hs, -, hm⟩ := h.exists_stepsBy he (.of_cpu rfl rfl rfl)
  have hl := length_bytes_of_operation hd (by simp)
  rw [List.append_nil, hl] at hs
  refine ⟨y, m', hy, hs, ?_⟩
  rw [hm]
  show { m₀.cpu.regs.setHl r.1 with f := r.2.toByte } = _
  simp only [r]
  rw [h.cpu, hl]
  rfl

/-- The step of an operation that takes the sum of SP and the signed byte after the opcode. -/
theorem Begins.spOffset {op : BaseOp} {g : UInt16 → Registers → Registers} (h : m.Begins code m₀)
    (hd : code.operation = op) (hb : op ≠ .bitPage)
    (he : m₀.execBase op = .ok (m₀.execSpOffset.2.mapRegs (g m₀.execSpOffset.1))) :
    ∃ n m', m.StepsBy (code.bytes ++ [n]) [] 8 m' ∧
      let r := Arithmetic.offset m.cpu.regs.sp n
      m'.cpu.regs = { g r.1 { m.cpu.regs with pc := m.cpu.regs.pc + 2 } with f := r.2.toByte } := by
  have hp : m₀.Proceeds [m₀.fetchByte.1] [] (m₀.execSpOffset.2.mapRegs (g m₀.execSpOffset.1)) :=
    m₀.advances_fetchByte.proceeds (.of_cpu rfl rfl rfl) (.inl rfl)
  obtain ⟨m', hs, -, hm⟩ := h.exists_stepsBy ((execCode_of_operation hd hb m₀).trans he) hp
  have hl := length_bytes_of_operation hd hb
  rw [hl] at hs
  refine ⟨_, m', hs, ?_⟩
  have hpc : m.cpu.regs.pc + 2 = m.cpu.regs.pc + 1 + 1 := by
    rw [UInt16.add_assoc]
    rfl
  rw [hm, hpc]
  show { g (Arithmetic.offset m₀.cpu.regs.sp m₀.fetchByte.1).1
      { m₀.cpu.regs with pc := m₀.cpu.regs.pc + 1 } with
    f := (Arithmetic.offset m₀.cpu.regs.sp m₀.fetchByte.1).2.toByte } = _
  rw [h.cpu, hl]
  rfl

/-- Words are added as their bytes are. What ADD HL makes of HL and the flags is what ADD of the low
bytes and then ADC of the high bytes make of them, except that the zero flag is kept; ADD SP and LD
HL,SP+n take one sum, of SP and the word of the signed byte after the opcode, with the flags of ADD
of the low bytes, except that the zero flag is cleared. Flags come from the operands, whatever the
rules of the processor are. -/
theorem word_sums {rules : FlagRules} (hr : rules.carrySource = .operands) (src : Operand)
    (m : Machine (Traced σ)) (hc : m.code? = some code) :
    let r := m.cpu.regs
    let fl := Flags.ofByte r.f
    let sum (x y : UInt16) := addBytewise rules src x y fl
    let flags (zero : Bool) (of : Flags) : Flags :=
      { zero := zero, subtract := false, halfCarry := of.halfCarry, carry := of.carry }
    (∀ s ∈ [Selector.bc, .de, .hl, .sp], code.operation = .addHl s →
      ∃ y m', r.word s = .ok y ∧ m.StepsBy code.bytes [] 4 m' ∧
        let z := sum r.hl y
        m'.cpu.regs =
          { r with
            h := z.high.1, l := z.low.1, f := (flags fl.zero z.high.2).toByte, pc := r.pc + 1 }) ∧
    (code.operation = .addSpOffset →
      ∃ n m', m.StepsBy (code.bytes ++ [n]) [] 8 m' ∧
        let z := sum r.sp (Word.ofSignedByte n)
        (z.word.toNat : Int) = (r.sp.toNat + Byte.signed n) % 0x10000 ∧
        m'.cpu.regs =
          { r with sp := z.word, f := (flags false z.low.2).toByte, pc := r.pc + 2 }) ∧
    (code.operation = .loadHlSpOffset →
      ∃ n m', m.StepsBy (code.bytes ++ [n]) [] 8 m' ∧
        let z := sum r.sp (Word.ofSignedByte n)
        (z.word.toNat : Int) = (r.sp.toNat + Byte.signed n) % 0x10000 ∧
        m'.cpu.regs =
          { r with
            h := z.high.1, l := z.low.1, f := (flags false z.low.2).toByte, pc := r.pc + 2 }) := by
  intro r fl sum flags
  obtain ⟨m₀, hb⟩ := exists_begins hc
  have hset (r : Registers) (z : BytewiseSum) :
      r.setHl z.word = { r with h := z.high.1, l := z.low.1 } := by
    rw [Registers.setHl, BytewiseSum.word, Word.high_ofBytes, Word.low_ofBytes]
  have hv (n : UInt8) : ((sum r.sp (Word.ofSignedByte n)).word.toNat : Int) =
      (r.sp.toNat + Byte.signed n) % 0x10000 := by
    rw [← Word.toNat_addSigned, Word.addSigned, Word.ofSigned_signed,
      Arithmetic.word_addBytewise hr]
  refine ⟨?_, ?_, ?_⟩
  · intro s hs hd
    obtain ⟨y, m', hy, hsteps, hm⟩ := hb.addHl hd hs
    refine ⟨y, m', hy, hsteps, ?_⟩
    rw [hm, Arithmetic.addWords_eq hr src, hset]
    rfl
  · intro hd
    obtain ⟨n, m', hsteps, hm⟩ :=
      hb.spOffset hd (by simp) (g := fun w r => { r with sp := w }) rfl
    refine ⟨n, m', hsteps, hv n, ?_⟩
    rw [hm, Arithmetic.offset_eq hr src _ fl]
    rfl
  · intro hd
    obtain ⟨n, m', hsteps, hm⟩ := hb.spOffset hd (by simp) (g := fun w r => r.setHl w) rfl
    refine ⟨n, m', hsteps, hv n, ?_⟩
    rw [hm, Arithmetic.offset_eq hr src _ fl, hset]
    rfl

/-- The addition of HL to itself. -/
theorem word_sums_of_hl :
    let m : Machine (Traced FlatMemory) :=
      { cpu := { regs := { h := 0x8F, l := 0x80 } }, bus := { bus := .filled 0x29 } }
    m.code? = some (.base 0x29) ∧
      ∃ m', m.StepsBy [0x29] [] 4 m' ∧
        m'.cpu.regs = { h := 0x1F, l := 0x00, f := 0x30, pc := 1 } := by
  intro m
  have ho : m.fetchOpcode.1 = 0x29 := FlatMemory.get_filled 0x29 0
  have hf : m.fetchCode.1 = .base 0x29 := by
    rw [fetchCode_of_ne (by rw [ho]; decide), ho]
  have hc : m.code? = some (.base 0x29) := congrArg some hf
  have hr : ({} : FlagRules).carrySource = .operands := rfl
  obtain ⟨h, -⟩ := word_sums hr .immediate m hc
  obtain ⟨y, m', hy, hs, hm⟩ := h .hl (by decide) (by decide)
  obtain rfl : m.cpu.regs.hl = y := Except.ok.inj hy
  exact ⟨hc, m', hs, hm.trans (by decide)⟩

end Machine

end DotMatrix
