import DotMatrix.Proofs.Processor.Column

/-!
# Binary numbers of several bytes

With flags from the operands, addition and subtraction on A are exact: nothing is lost of the sum or
difference of two bytes and a carry but what the carry flag holds, and nothing of that of the low
nibbles but what the half carry holds. So ADC adds, and SBC subtracts, numbers of any length.

* `Arithmetic.AddsExactly` and `Arithmetic.SubtractsExactly` are the laws of a single operation.
* `chain_binary` is the law of numbers.
-/

namespace DotMatrix

/-- Every byte is a digit. -/
def Radix.binary : Radix where
  base := 256
  IsDigit _ := True
  digit := UInt8.toNat

namespace Arithmetic

/-- The result and the flags hold the sum of two bytes and a carry, and that of their low
nibbles. -/
structure AddsExactly (a v : UInt8) (c : Bool) (r : UInt8 × Flags) : Prop where
  byte : a.toNat + v.toNat + c.toNat = r.1.toNat + 256 * r.2.carry.toNat
  nibble : a.toNat % 16 + v.toNat % 16 + c.toNat = r.1.toNat % 16 + 16 * r.2.halfCarry.toNat

/-- The result and the flags hold the difference of two bytes and a borrow, and that of their low
nibbles. -/
structure SubtractsExactly (a v : UInt8) (c : Bool) (r : UInt8 × Flags) : Prop where
  byte : r.1.toNat + v.toNat + c.toNat = a.toNat + 256 * r.2.carry.toNat
  nibble : r.1.toNat % 16 + v.toNat % 16 + c.toNat = a.toNat % 16 + 16 * r.2.halfCarry.toNat

theorem toNat_decide (p : Prop) [Decidable p] : (decide p).toNat = if p then 1 else 0 := by
  split <;> simp [*]

theorem toNat_sum (a v : UInt8) (c : Bool) :
    (UInt8.ofNat (Byte.sum a v c)).toNat = (a.toNat + v.toNat + c.toNat) % 256 :=
  UInt8.toNat_ofNat' ..

theorem toNat_difference (a v : UInt8) (c : Bool) :
    ((UInt8.ofInt (Byte.difference a v c)).toNat : Int) =
      (a.toNat - v.toNat - c.toNat : Int) % 256 := by
  unfold UInt8.ofInt Byte.difference
  rw [UInt8.toNat_ofNat']
  omega

theorem addsExactly_add (a v : UInt8) (c : Bool) : AddsExactly a v c (add .operands a v c) := by
  have ha := a.toNat_lt
  have hv := v.toNat_lt
  have hc := Bool.toNat_le c
  constructor
  · simp only [add, toNat_decide, toNat_sum]
    unfold Byte.sum
    split <;> omega
  · simp only [add, toNat_decide, toNat_sum]
    unfold Byte.nibbleSum
    split <;> omega

theorem subtractsExactly_sub (a v : UInt8) (c : Bool) :
    SubtractsExactly a v c (sub .operands a v c) := by
  have ha := a.toNat_lt
  have hv := v.toNat_lt
  have hc := Bool.toNat_le c
  have hd := toNat_difference a v c
  constructor
  · simp only [sub, toNat_decide]
    unfold Byte.difference at hd ⊢
    split <;> omega
  · simp only [sub, toNat_decide]
    unfold Byte.nibbleDifference
    split <;> omega

end Arithmetic

namespace ByteOp

variable {rules : FlagRules} (h : rules.carrySource = .operands) (src : Operand)

include h

theorem addsExactly_adc (a v : UInt8) (fl : Flags) :
    Arithmetic.AddsExactly a v fl.carry (adc.apply rules src a v fl) := by
  rw [apply, FlagRules.basis_of_operands h]
  exact Arithmetic.addsExactly_add a v fl.carry

theorem subtractsExactly_sbc (a v : UInt8) (fl : Flags) :
    Arithmetic.SubtractsExactly a v fl.carry (sbc.apply rules src a v fl) := by
  rw [apply, FlagRules.basis_of_operands h]
  exact Arithmetic.subtractsExactly_sub a v fl.carry

/-- ADC is an adder of bytes. -/
theorem adds_adc : Radix.binary.Adds (adc.apply rules src) :=
  fun x y fl _ _ => ⟨trivial, (addsExactly_adc h src x y fl).byte⟩

/-- SBC is a subtracter of bytes. -/
theorem subtracts_sbc : Radix.binary.Subtracts (sbc.apply rules src) :=
  fun x y fl _ _ => ⟨trivial, (subtractsExactly_sbc h src x y fl).byte⟩

end ByteOp

/-- The law of numbers of several bytes. A chain of ADC adds two numbers and the carry flag, and one
that begins with ADD adds the two numbers; the carry flag is then the digit that does not fit. A
chain of SBC subtracts, and one that begins with SUB. CP sets the flags as SUB does and keeps A. In
every column the half carry is the carry, or the borrow, of the low nibbles. -/
theorem chain_binary (rules : FlagRules) (h : rules.carrySource = .operands) (src : Operand)
    (fl : Flags) :
    let step (op : ByteOp) := op.apply rules src
    (∀ xs ys : List UInt8, xs.length = ys.length →
      let r := chain (step .adc) (step .adc) fl xs ys
      let s := chain (step .sbc) (step .sbc) fl xs ys
      Radix.binary.IsSum xs ys fl.carry r.1 r.2.carry ∧
        Radix.binary.IsDifference xs ys fl.carry s.1 s.2.carry) ∧
    (∀ xs ys : List UInt8, xs ≠ [] → xs.length = ys.length →
      let r := chain (step .add) (step .adc) fl xs ys
      let s := chain (step .sub) (step .sbc) fl xs ys
      Radix.binary.IsSum xs ys false r.1 r.2.carry ∧
        Radix.binary.IsDifference xs ys false s.1 s.2.carry) ∧
    ∀ a v : UInt8,
      Arithmetic.AddsExactly a v false (step .add a v fl) ∧
      Arithmetic.AddsExactly a v fl.carry (step .adc a v fl) ∧
      Arithmetic.SubtractsExactly a v false (step .sub a v fl) ∧
      Arithmetic.SubtractsExactly a v fl.carry (step .sbc a v fl) ∧
      step .cp a v fl = (a, (step .sub a v fl).2) := by
  intro step
  have hd (bs : List UInt8) : ∀ b ∈ bs, Radix.binary.IsDigit b := fun _ _ => trivial
  refine ⟨fun xs ys hl => ?_, fun xs ys hx hl => ?_, fun a v => ?_⟩
  · exact ⟨(ByteOp.adds_adc h src).chain hl (hd xs) (hd ys) fl,
      (ByteOp.subtracts_sbc h src).chain hl (hd xs) (hd ys) fl⟩
  · -- In the first column, ADD is ADC without a carry, and SUB is SBC without a borrow.
    let fl' : Flags := { fl with carry := false }
    have ha : chain (step .add) (step .adc) fl xs ys = chain (step .adc) (step .adc) fl' xs ys :=
      chain_first (fun x y => show step .add x y fl = step .adc x y fl' from rfl) hx hl
    have hs : chain (step .sub) (step .sbc) fl xs ys = chain (step .sbc) (step .sbc) fl' xs ys :=
      chain_first (fun x y => show step .sub x y fl = step .sbc x y fl' from rfl) hx hl
    dsimp only
    rw [ha, hs]
    exact ⟨(ByteOp.adds_adc h src).chain hl (hd xs) (hd ys) fl',
      (ByteOp.subtracts_sbc h src).chain hl (hd xs) (hd ys) fl'⟩
  · exact ⟨ByteOp.addsExactly_adc h src a v { fl with carry := false },
      ByteOp.addsExactly_adc h src a v fl,
      ByteOp.subtractsExactly_sbc h src a v { fl with carry := false },
      ByteOp.subtractsExactly_sbc h src a v fl, rfl⟩

/-- The sum of FFFF, 00FF and a carry: both columns carry. -/
theorem chain_binary_of_full :
    let adc := ByteOp.adc.apply {} .immediate
    chain adc adc { carry := true } [0xFF, 0xFF] [0xFF, 0x00] =
        ([0xFF, 0x00], { zero := true, halfCarry := true, carry := true }) ∧
      Radix.binary.IsSum [0xFF, 0xFF] [0xFF, 0x00] true [0xFF, 0x00] true :=
  ⟨rfl, ((chain_binary {} rfl .immediate { carry := true }).1 [0xFF, 0xFF] [0xFF, 0x00] rfl).1⟩

end DotMatrix
