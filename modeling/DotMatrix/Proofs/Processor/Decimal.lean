import DotMatrix.Proofs.Processor.MultiByte

/-!
# Packed decimal numbers

A packed decimal byte holds a decimal digit in each nibble. The processor adds and subtracts such
bytes in binary, and DAA adjusts the result: a nibble counts to sixteen where a digit counts to ten,
so six is missing wherever a digit carries or borrows.

* `Byte.Packs b h l` says that the digits of `b` are `h` and `l`; `Radix.decimal` reads such bytes.
* `adjustsLow` and `adjustsHigh` say which digits DAA adjusts: after an addition those that are too
  large, after a subtraction those that borrow.
* `addsColumn_daa` and `subtractsColumn_daa` are the laws of a single byte, after any operation that
  adds or subtracts exactly.
* `chain_decimal` is the law of numbers.
-/

namespace DotMatrix

namespace Byte

/-- Both nibbles of a byte are decimal digits. -/
def IsDecimal (b : UInt8) : Prop := b.toNat / 16 ≤ 9 ∧ b.toNat % 16 ≤ 9

/-- The number that the two digits of a byte stand for. -/
def decimal (b : UInt8) : Nat := 10 * (b.toNat / 16) + b.toNat % 16

/-- The decimal digits of a byte. -/
structure Packs (b : UInt8) (h l : Nat) : Prop where
  high : h ≤ 9
  low : l ≤ 9
  eq : b.toNat = 16 * h + l

variable {b : UInt8} {h l : Nat}

theorem IsDecimal.packs (hb : IsDecimal b) : Packs b (b.toNat / 16) (b.toNat % 16) :=
  ⟨hb.1, hb.2, (Nat.div_add_mod ..).symm⟩

theorem Packs.digits (hb : Packs b h l) : b.toNat / 16 = h ∧ b.toNat % 16 = l := by
  have := hb.low
  rw [hb.eq]
  omega

theorem Packs.isDecimal (hb : Packs b h l) : IsDecimal b := by
  rw [IsDecimal, hb.digits.1, hb.digits.2]
  exact ⟨hb.high, hb.low⟩

theorem Packs.decimal_eq (hb : Packs b h l) : decimal b = 10 * h + l := by
  rw [decimal, hb.digits.1, hb.digits.2]

end Byte

/-- Packed decimal bytes are digits in base 100. -/
def Radix.decimal : Radix where
  base := 100
  IsDigit := Byte.IsDecimal
  digit := Byte.decimal

/-- An operation on A, and then the decimal adjustment. -/
def ByteOp.adjusted (op : ByteOp) (rules : FlagRules) (src : Operand) : ColumnStep :=
  fun a v fl =>
    let r := op.apply rules src a v fl
    Arithmetic.daa r.1 r.2

namespace Arithmetic

/-- Whether DAA adjusts the low digit. -/
def adjustsLow (a : UInt8) (fl : Flags) : Bool :=
  fl.halfCarry || (!fl.subtract && decide (9 < a.toNat % 16))

/-- Whether DAA adjusts the high digit. -/
def adjustsHigh (a : UInt8) (fl : Flags) : Bool :=
  fl.carry || (!fl.subtract && decide (0x99 < a.toNat))

theorem toNat_adjustment (a : UInt8) (fl : Flags) :
    (adjustment a fl).toNat = 96 * (adjustsHigh a fl).toNat + 6 * (adjustsLow a fl).toNat := by
  show UInt8.toNat
    ((if adjustsHigh a fl then 0x60 else 0) + (if adjustsLow a fl then 0x06 else 0)) = _
  cases adjustsHigh a fl <;> cases adjustsLow a fl <;> rfl

/-- DAA adds the adjustment after an addition. -/
theorem toNat_daa_of_add {a : UInt8} {fl : Flags} (hn : fl.subtract = false) :
    (daa a fl).1.toNat =
      (a.toNat + (96 * (adjustsHigh a fl).toNat + 6 * (adjustsLow a fl).toNat)) % 256 := by
  show UInt8.toNat (if fl.subtract then _ else _) = _
  rw [hn, if_neg Bool.false_ne_true, UInt8.toNat_add, toNat_adjustment]

/-- DAA subtracts the adjustment after a subtraction. -/
theorem toNat_daa_of_sub {a : UInt8} {fl : Flags} (hn : fl.subtract = true) :
    (daa a fl).1.toNat =
      (256 - (96 * (adjustsHigh a fl).toNat + 6 * (adjustsLow a fl).toNat) + a.toNat) % 256 := by
  show UInt8.toNat (if fl.subtract then _ else _) = _
  rw [hn, if_pos rfl, UInt8.toNat_sub, toNat_adjustment]

/-- DAA carries if it adjusts the high digit. -/
theorem carry_daa (a : UInt8) (fl : Flags) : (daa a fl).2.carry = adjustsHigh a fl := by
  show decide (0x60 ≤ (adjustment a fl).toNat) = _
  rw [toNat_adjustment]
  cases adjustsHigh a fl <;> cases adjustsLow a fl <;> rfl

/-! ### Digits -/

/-- A digit that is too large carries. -/
theorem exists_digit_of_carry {s : Nat} {d : Bool} (hd : d = true ↔ 10 ≤ s) (hs : s ≤ 19) :
    ∃ z, z ≤ 9 ∧ s = z + 10 * d.toNat := by
  cases d with
  | false => exact ⟨s, by simp at hd; omega, rfl⟩
  | true => exact ⟨s - 10, by omega, (Nat.sub_add_cancel (hd.1 rfl)).symm⟩

/-- A nibble `w` that borrows is six more than the digit that borrows. -/
theorem exists_digit_of_borrow {w t x : Nat} {d : Bool} (h : w + t = x + 16 * d.toNat)
    (hw : w ≤ 15) (ht : t ≤ 10) (hx : x ≤ 9) :
    ∃ z, z ≤ 9 ∧ z + t = x + 10 * d.toNat ∧ w = z + 6 * d.toNat := by
  cases d with
  | false => exact ⟨w, by simp at h; omega, h, rfl⟩
  | true =>
    rw [Bool.toNat_true] at h ⊢
    exact ⟨w - 6, by omega, by omega, by omega⟩

/-! ### Bytes -/

variable {x y : UInt8} {c : Bool} {r : UInt8 × Flags}

/-- After an exact addition, the low digit is adjusted if the sum of the low digits is too large. -/
theorem adjustsLow_of_adds (h : AddsExactly x y c r) (hn : r.2.subtract = false) :
    adjustsLow r.1 r.2 = true ↔ 10 ≤ x.toNat % 16 + y.toNat % 16 + c.toNat := by
  have hs := h.nibble
  rw [adjustsLow, hn]
  cases hH : r.2.halfCarry <;> rw [hH] at hs <;> simp at hs ⊢ <;> omega

/-- After an exact addition, the high digit is adjusted if the sum of the bytes is too large. -/
theorem adjustsHigh_of_adds (h : AddsExactly x y c r) (hn : r.2.subtract = false) :
    adjustsHigh r.1 r.2 = true ↔ 0x9A ≤ x.toNat + y.toNat + c.toNat := by
  have hb := h.byte
  rw [adjustsHigh, hn]
  cases hC : r.2.carry <;> rw [hC] at hb <;> simp at hb ⊢ <;> omega

/-- After an exact addition of packed decimal bytes, DAA leaves the packed decimal sum. -/
theorem addsColumn_daa (h : AddsExactly x y c r) (hn : r.2.subtract = false)
    (hx : Byte.IsDecimal x) (hy : Byte.IsDecimal y) :
    Radix.decimal.AddsColumn x y c (daa r.1 r.2).1 (daa r.1 r.2).2.carry := by
  have hlo := adjustsLow_of_adds h hn
  have hhi := adjustsHigh_of_adds h hn
  have hb := h.byte
  have hr := toNat_daa_of_add hn (a := r.1)
  rw [carry_daa]
  generalize adjustsLow r.1 r.2 = lo, adjustsHigh r.1 r.2 = hi at hlo hhi hr
  obtain ⟨x₁, x₀, hx⟩ : ∃ h l, Byte.Packs x h l := ⟨_, _, hx.packs⟩
  obtain ⟨y₁, y₀, hy⟩ : ∃ h l, Byte.Packs y h l := ⟨_, _, hy.packs⟩
  rw [hx.digits.2, hy.digits.2] at hlo
  rw [hx.eq, hy.eq] at hhi hb
  have hc := Bool.toNat_le c
  have ⟨hx₁, hx₀, _⟩ := hx
  have ⟨hy₁, hy₀, _⟩ := hy
  obtain ⟨z₀, hz₀, h₀⟩ := exists_digit_of_carry hlo (by omega)
  -- The bytes are too large exactly if the high digits are, with the carry of the low ones.
  have hhi' : hi = true ↔ 10 ≤ x₁ + y₁ + lo.toNat := by
    have hd := Nat.le_one_iff_eq_zero_or_eq_one.1 (Bool.toNat_le lo)
    rw [hhi]
    omega
  obtain ⟨z₁, hz₁, h₁⟩ := exists_digit_of_carry hhi' (by have := Bool.toNat_le lo; omega)
  have hz : Byte.Packs (daa r.1 r.2).1 z₁ z₀ := ⟨hz₁, hz₀, by omega⟩
  refine ⟨hz.isDecimal, ?_⟩
  show Byte.decimal x + Byte.decimal y + c.toNat = Byte.decimal (daa r.1 r.2).1 + 100 * hi.toNat
  rw [hx.decimal_eq, hy.decimal_eq, hz.decimal_eq]
  omega

/-- After an exact subtraction of packed decimal bytes, DAA leaves the packed decimal difference. -/
theorem subtractsColumn_daa (h : SubtractsExactly x y c r) (hn : r.2.subtract = true)
    (hx : Byte.IsDecimal x) (hy : Byte.IsDecimal y) :
    Radix.decimal.SubtractsColumn x y c (daa r.1 r.2).1 (daa r.1 r.2).2.carry := by
  -- The digits that are adjusted are those that borrow.
  have hlo : adjustsLow r.1 r.2 = r.2.halfCarry := by simp [adjustsLow, hn]
  have hhi : adjustsHigh r.1 r.2 = r.2.carry := by simp [adjustsHigh, hn]
  have hr := toNat_daa_of_sub hn (a := r.1)
  rw [hlo, hhi] at hr
  have hb := h.byte
  have hs := h.nibble
  have hlt := r.1.toNat_lt
  rw [carry_daa, hhi]
  obtain ⟨x₁, x₀, hx⟩ : ∃ h l, Byte.Packs x h l := ⟨_, _, hx.packs⟩
  obtain ⟨y₁, y₀, hy⟩ : ∃ h l, Byte.Packs y h l := ⟨_, _, hy.packs⟩
  rw [hx.digits.2, hy.digits.2] at hs
  rw [hx.eq, hy.eq] at hb
  have hc := Bool.toNat_le c
  have hH := Bool.toNat_le r.2.halfCarry
  have ⟨hx₁, hx₀, _⟩ := hx
  have ⟨hy₁, hy₀, _⟩ := hy
  have hs₁ : r.1.toNat / 16 + (y₁ + r.2.halfCarry.toNat) = x₁ + 16 * r.2.carry.toNat := by omega
  obtain ⟨z₀, hz₀, h₀, hw₀⟩ :=
    exists_digit_of_borrow ((Nat.add_assoc ..).symm.trans hs) (by omega) (by omega) hx₀
  obtain ⟨z₁, hz₁, h₁, hw₁⟩ := exists_digit_of_borrow hs₁ (by omega) (by omega) hx₁
  have hz : Byte.Packs (daa r.1 r.2).1 z₁ z₀ := ⟨hz₁, hz₀, by omega⟩
  refine ⟨hz.isDecimal, ?_⟩
  show Byte.decimal (daa r.1 r.2).1 + Byte.decimal y + c.toNat =
    Byte.decimal x + 100 * r.2.carry.toNat
  rw [hx.decimal_eq, hy.decimal_eq, hz.decimal_eq]
  omega

end Arithmetic

namespace ByteOp

variable {rules : FlagRules} (h : rules.carrySource = .operands) (src : Operand)

include h

/-- ADC and DAA are an adder of packed decimal bytes. -/
theorem adds_adjusted_adc : Radix.decimal.Adds (adc.adjusted rules src) :=
  fun x y fl hx hy => Arithmetic.addsColumn_daa (addsExactly_adc h src x y fl) rfl hx hy

/-- SBC and DAA are a subtracter of packed decimal bytes. -/
theorem subtracts_adjusted_sbc : Radix.decimal.Subtracts (sbc.adjusted rules src) :=
  fun x y fl hx hy => Arithmetic.subtractsColumn_daa (subtractsExactly_sbc h src x y fl) rfl hx hy

end ByteOp

/-- The law of packed decimal numbers. A chain of ADC, each followed by DAA, adds two packed decimal
numbers and the carry flag; the result is packed decimal again, and the carry flag is the digit that
does not fit. A chain of SBC and DAA subtracts. In every column DAA sets the zero flag if it leaves
zero, clears the half carry and keeps the subtract flag. -/
theorem chain_decimal (rules : FlagRules) (h : rules.carrySource = .operands) (src : Operand)
    (fl : Flags) (xs ys : List UInt8) (hl : xs.length = ys.length)
    (hx : ∀ x ∈ xs, Byte.IsDecimal x) (hy : ∀ y ∈ ys, Byte.IsDecimal y) :
    let step (op : ByteOp) := op.adjusted rules src
    let r := chain (step .adc) (step .adc) fl xs ys
    let s := chain (step .sbc) (step .sbc) fl xs ys
    Radix.decimal.IsSum xs ys fl.carry r.1 r.2.carry ∧
      Radix.decimal.IsDifference xs ys fl.carry s.1 s.2.carry ∧
      ∀ op a v fl',
        ((step op a v fl').2.zero = true ↔ (step op a v fl').1 = 0) ∧
        (step op a v fl').2.halfCarry = false ∧
        (step op a v fl').2.subtract = (op.apply rules src a v fl').2.subtract := by
  refine ⟨(ByteOp.adds_adjusted_adc h src).chain hl hx hy fl,
    (ByteOp.subtracts_adjusted_sbc h src).chain hl hx hy fl, fun op a v fl' => ⟨?_, rfl, rfl⟩⟩
  exact beq_iff_eq

/-- The sum of 0999 and 1001, and their difference, which borrows. -/
theorem chain_decimal_of_carry :
    let adc := ByteOp.adc.adjusted {} .immediate
    let sbc := ByteOp.sbc.adjusted {} .immediate
    (chain adc adc {} [0x99, 0x09] [0x01, 0x10]).1 = [0x00, 0x20] ∧
      (chain sbc sbc {} [0x99, 0x09] [0x01, 0x10]).1 = [0x98, 0x99] ∧
      Radix.decimal.IsSum [0x99, 0x09] [0x01, 0x10] false [0x00, 0x20] false ∧
      Radix.decimal.IsDifference [0x99, 0x09] [0x01, 0x10] false [0x98, 0x99] true := by
  obtain ⟨ha, hs, -⟩ := chain_decimal {} rfl .immediate {} [0x99, 0x09] [0x01, 0x10] rfl
    (by simp [Byte.IsDecimal]) (by simp [Byte.IsDecimal])
  exact ⟨rfl, rfl, ha, hs⟩

end DotMatrix
