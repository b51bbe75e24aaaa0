import DotMatrix.Proofs.Processor.Addressing
import DotMatrix.Proofs.Processor.MultiByte

/-!
# Shifts of numbers of several bytes

A number of several bytes is shifted byte by byte, and the carry flag takes the bit that one byte
loses to the next. The bytes are taken from the lowest on to shift to the left, and from the highest
on to shift to the right.

A byte that RL shifts, and the carry flag, are doubled: the column of an addition of the byte to
itself. What RR makes of a byte is doubled in the same sense, into that byte. So a chain of either
is a sum of two equal numbers, which the laws of columns turn into a law of numbers.

* `shifts` and `shiftsDown` are the two chains. `doubles_shifts` and `doubles_shiftsDown` are the
  columns of the sum.
* `ShiftedLeft`, `ShiftedRight` and `Halved` are the laws of a number.
* `m.ShiftsBytes rest first vs rs m'` says that instructions shift bytes one after the other, and
  `Machine.ShiftsBytes.eq` that they work out the chain.
* `shifts_number` puts it together.
-/

namespace DotMatrix

/-- Shift bytes one after the other. The flags after one byte are those before the next; `first` is
for the first byte, `rest` for the others. -/
def shifts (first rest : Shift) (fl : Flags) : List UInt8 → List UInt8 × Flags
  | [] => ([], fl)
  | b :: bs =>
    let (r, fl) := first.apply b true fl
    let (rs, fl) := shifts rest rest fl bs
    (r :: rs, fl)

/-- Shift the bytes of a number from the highest on. -/
def shiftsDown (first rest : Shift) (fl : Flags) (bs : List UInt8) : List UInt8 × Flags :=
  let (rs, fl) := shifts first rest fl bs.reverse
  (rs.reverse, fl)

/-! ### Single bytes -/

namespace Shift

/-- RL doubles a byte and adds the carry flag. -/
theorem doubles_rl (b : UInt8) (fl : Flags) :
    b.toNat + b.toNat + fl.carry.toNat =
      (rl.apply b true fl).1.toNat + 256 * (rl.apply b true fl).2.carry.toNat := by
  show b.toNat + b.toNat + fl.carry.toNat =
    (rl.result b fl.carry).toNat + 256 * (rl.carryOut b).toNat
  generalize fl.carry = c
  revert b
  refine Byte.forall_of_fin ?_
  cases c <;> decide +kernel

/-- A byte, with the carry flag above it, is the double of what RR makes of it. -/
theorem doubles_rr (b : UInt8) (fl : Flags) :
    (rr.apply b true fl).1.toNat + (rr.apply b true fl).1.toNat +
        (rr.apply b true fl).2.carry.toNat =
      b.toNat + 256 * fl.carry.toNat := by
  show (rr.result b fl.carry).toNat + (rr.result b fl.carry).toNat + (rr.carryOut b).toNat =
    b.toNat + 256 * fl.carry.toNat
  generalize fl.carry = c
  revert b
  refine Byte.forall_of_fin ?_
  cases c <;> decide +kernel

/-- SLA is RL without a carry. -/
theorem apply_sla (b : UInt8) (fl : Flags) :
    sla.apply b true fl = rl.apply b true { fl with carry := false } := by
  have hr : sla.result b fl.carry = rl.result b false := (UInt8.or_zero ..).symm
  rw [apply, apply, hr]
  rfl

/-- SRL is RR without a carry. -/
theorem apply_srl (b : UInt8) (fl : Flags) :
    srl.apply b true fl = rr.apply b true { fl with carry := false } := by
  have hr : srl.result b fl.carry = rr.result b false := (UInt8.or_zero ..).symm
  rw [apply, apply, hr]
  rfl

/-- SRA is RR with the top bit of the byte as the carry. -/
theorem apply_sra (b : UInt8) (fl : Flags) :
    sra.apply b true fl = rr.apply b true { fl with carry := b.toNat.testBit 7 } := by
  have hr : sra.result b false = rr.result b (b.toNat.testBit 7) := by
    revert b
    refine Byte.forall_of_fin ?_
    decide +kernel
  have hc : sra.result b fl.carry = sra.result b false := rfl
  rw [apply, apply, hc, hr]
  rfl

/-- A shift depends on the carry flag alone. -/
theorem apply_congr (k : Shift) (b : UInt8) {fl fl' : Flags} (h : fl.carry = fl'.carry) :
    k.apply b true fl = k.apply b true fl' := by
  rw [apply, apply, h]

end Shift

/-! ### Chains -/

section

variable {first rest : Shift} {fl fl' : Flags}

/-- The first byte may be shifted as the others are, if the flags make up for it. -/
theorem shifts_first {b : UInt8} (h : first.apply b true fl = rest.apply b true fl')
    (bs : List UInt8) : shifts first rest fl (b :: bs) = shifts rest rest fl' (b :: bs) := by
  rw [shifts, shifts, h]

/-- Of the flags, only the carry goes into a chain. -/
theorem shifts_congr (h : fl.carry = fl'.carry) (bs : List UInt8) :
    (shifts first rest fl bs).1 = (shifts first rest fl' bs).1 ∧
      (shifts first rest fl bs).2.carry = (shifts first rest fl' bs).2.carry := by
  cases bs with
  | nil => exact ⟨rfl, h⟩
  | cons b bs =>
    rw [shifts, shifts, first.apply_congr b h]
    exact ⟨rfl, rfl⟩

/-- A chain to the left that begins with SLA begins without a carry. -/
theorem shifts_sla (fl : Flags) {bs : List UInt8} (h : bs ≠ []) :
    shifts .sla .rl fl bs = shifts .rl .rl { fl with carry := false } bs := by
  obtain ⟨b, bs, rfl⟩ := List.exists_cons_of_ne_nil h
  exact shifts_first (Shift.apply_sla b fl) bs

/-- A chain to the right that begins with SRL begins without a carry. -/
theorem shiftsDown_srl (fl : Flags) {bs : List UInt8} (h : bs ≠ []) :
    shiftsDown .srl .rr fl bs = shiftsDown .rr .rr { fl with carry := false } bs := by
  obtain ⟨b, l, hl⟩ := List.exists_cons_of_ne_nil (List.reverse_ne_nil_iff.2 h)
  rw [shiftsDown, shiftsDown, hl, shifts_first (Shift.apply_srl b fl)]

/-- A chain to the right that begins with SRA begins with the top bit as the carry. -/
theorem shiftsDown_sra (fl : Flags) (bs : List UInt8) (b : UInt8) :
    shiftsDown .sra .rr fl (bs ++ [b]) =
      shiftsDown .rr .rr { fl with carry := b.toNat.testBit 7 } (bs ++ [b]) := by
  rw [shiftsDown, shiftsDown, List.reverse_concat, shifts_first (Shift.apply_sra b fl)]

end

/-! ### Numbers -/

theorem Columns.append {L : ColumnLaw} {xs ys rs xs' ys' rs' : List UInt8} {c d C : Bool}
    (h : Columns L xs ys c rs d) (h' : Columns L xs' ys' d rs' C) :
    Columns L (xs ++ xs') (ys ++ ys') c (rs ++ rs') C := by
  induction h with
  | nil => exact h'
  | cons column _ ih => exact .cons column (ih h')

/-- Bytes and a carry out that are the double of bytes with a carry in, column by column. -/
def Doubles (bs : List UInt8) (c : Bool) (rs : List UInt8) (C : Bool) : Prop :=
  Columns Radix.binary.AddsColumn bs bs c rs C

/-- The columns of a chain to the left. -/
theorem doubles_shifts (fl : Flags) (bs : List UInt8) :
    Doubles bs fl.carry (shifts .rl .rl fl bs).1 (shifts .rl .rl fl bs).2.carry := by
  induction bs generalizing fl with
  | nil => exact .nil _
  | cons b bs ih => exact .cons ⟨trivial, Shift.doubles_rl b fl⟩ (ih _)

/-- The columns of a chain to the right are those of the number that results. -/
theorem doubles_shiftsDown (fl : Flags) (bs : List UInt8) :
    Doubles (shiftsDown .rr .rr fl bs).1 (shiftsDown .rr .rr fl bs).2.carry bs fl.carry := by
  suffices h : ∀ l : List UInt8, Doubles (shifts .rr .rr fl l).1.reverse
      (shifts .rr .rr fl l).2.carry l.reverse fl.carry by
    have hb := h bs.reverse
    rwa [List.reverse_reverse] at hb
  intro l
  induction l generalizing fl with
  | nil => exact .nil _
  | cons b l ih =>
    -- The first byte of the list is the highest of the number, so its column comes last.
    rw [shifts, List.reverse_cons, List.reverse_cons]
    exact (ih _).append (.cons ⟨trivial, (Shift.doubles_rr b fl)⟩ (.nil _))

namespace Radix

theorem forall_toNat_lt (bs : List UInt8) : ∀ d ∈ bs.map UInt8.toNat, d < 256 := by
  intro d hd
  obtain ⟨b, -, rfl⟩ := List.mem_map.1 hd
  exact b.toNat_lt

theorem binary_value_lt (bs : List UInt8) : binary.value bs < 256 ^ bs.length := by
  have h := Nat.ofDigits_lt_base_pow_length (show 1 < 256 by decide) (forall_toNat_lt bs)
  rwa [List.length_map] at h

theorem binary_value_concat (bs : List UInt8) (b : UInt8) :
    binary.value (bs ++ [b]) = binary.value bs + 256 ^ bs.length * b.toNat := by
  simp [value, binary, Nat.ofDigits_append]

/-- Numbers of equally many bytes are equal only if their bytes are. -/
theorem eq_of_binary_value {bs rs : List UInt8} (hl : bs.length = rs.length)
    (h : binary.value bs = binary.value rs) : bs = rs := by
  have hm := Nat.ofDigits_inj_of_len_eq (by decide) (by simpa using hl) (forall_toNat_lt bs)
    (forall_toNat_lt rs) h
  exact List.map_inj_right (fun _ _ => UInt8.toNat_inj.1) |>.1 hm

end Radix

/-- A number shifted to the left by a bit: `c` comes in at the bottom, and the top bit goes out. -/
structure ShiftedLeft (bs : List UInt8) (c : Bool) (rs : List UInt8) (C : Bool) : Prop where
  length : rs.length = bs.length
  value : Radix.binary.value rs = (2 * Radix.binary.value bs + c.toNat) % 256 ^ bs.length
  carry : C = (Radix.binary.value bs).testBit (8 * bs.length - 1)

/-- A number shifted to the right by a bit: `c` comes in at the top, and the lowest bit goes out. -/
structure ShiftedRight (bs : List UInt8) (c : Bool) (rs : List UInt8) (C : Bool) : Prop where
  length : rs.length = bs.length
  value : Radix.binary.value rs =
    Radix.binary.value bs / 2 + c.toNat * 2 ^ (8 * bs.length - 1)
  carry : C = (Radix.binary.value bs).testBit 0

/-- The two's-complement number that bytes stand for, lowest byte first. -/
def signedValue (bs : List UInt8) : Int := (Radix.binary.value bs : Int).bmod (256 ^ bs.length)

/-- A two's-complement number halved, towards minus infinity; the lowest bit goes out. -/
structure Halved (bs rs : List UInt8) (C : Bool) : Prop where
  length : rs.length = bs.length
  value : signedValue rs = signedValue bs / 2
  carry : C = (Radix.binary.value bs).testBit 0

theorem pow_256 (n : Nat) : 256 ^ n = 2 ^ (8 * n) := by
  rw [Nat.pow_mul]

/-- Half of the number of values that bytes can take. -/
theorem pow_length_eq {bs : List UInt8} (h : bs ≠ []) :
    256 ^ bs.length = 2 * 2 ^ (8 * bs.length - 1) := by
  have hl := List.length_pos_iff.2 h
  calc 256 ^ bs.length = 2 ^ (8 * bs.length) := pow_256 _
    _ = 2 ^ (8 * bs.length - 1 + 1) := by congr 1; omega
    _ = 2 * 2 ^ (8 * bs.length - 1) := Nat.pow_succ'

theorem intCast_pow_length {bs : List UInt8} (h : bs ≠ []) :
    (256 ^ bs.length : Int) = 2 * (2 ^ (8 * bs.length - 1) : Nat) := by
  exact_mod_cast pow_length_eq h

theorem testBit_top {v k : Nat} (h : v < 2 * 2 ^ k) : v.testBit k = decide (2 ^ k ≤ v) := by
  have hk : 0 < 2 ^ k := Nat.two_pow_pos k
  have hd : v / 2 ^ k < 2 := (Nat.div_lt_iff_lt_mul hk).2 h
  have hi : v / 2 ^ k % 2 = 1 ↔ 2 ^ k ≤ v := by
    rw [Nat.mod_eq_of_lt hd, ← Nat.div_pos_iff.trans (and_iff_right hk)]
    omega
  rw [Nat.testBit_eq_decide_div_mod_eq, decide_eq_decide]
  exact hi

/-- The top bit of a number is that of its highest byte. -/
theorem testBit_concat (bs : List UInt8) (b : UInt8) :
    (Radix.binary.value (bs ++ [b])).testBit (8 * (bs ++ [b]).length - 1) = b.toNat.testBit 7 := by
  have hp := pow_256 bs.length
  have hv := Radix.binary_value_lt bs
  have hi : 8 * (bs ++ [b]).length - 1 = 8 * bs.length + 7 := by
    rw [List.length_append, List.length_singleton]
    omega
  rw [hp] at hv
  rw [Radix.binary_value_concat, hp, hi, Nat.add_comm, Nat.testBit_two_pow_mul_add _ hv,
    if_neg (by omega), Nat.add_sub_cancel_left]

namespace Doubles

variable {bs rs : List UInt8} {c C : Bool}

theorem length_eq (h : Doubles bs c rs C) : rs.length = bs.length := Columns.length_eq h

theorem value_eq (h : Doubles bs c rs C) :
    2 * Radix.binary.value bs + c.toNat =
      Radix.binary.value rs + 256 ^ bs.length * C.toNat := by
  have hv := Radix.value_of_columns Radix.AddsColumn.value h
  rw [h.length_eq] at hv
  rw [Nat.two_mul]
  exact hv

/-- Doubling shifts to the left. -/
theorem shiftedLeft (h : Doubles bs c rs C) (h0 : bs ≠ []) : ShiftedLeft bs c rs C where
  length := h.length_eq
  value := by
    have hr := Radix.binary_value_lt rs
    rw [h.length_eq] at hr
    rw [h.value_eq, Nat.add_mul_mod_self_left, Nat.mod_eq_of_lt hr]
  carry := by
    have hb := Radix.binary_value_lt bs
    have hr := Radix.binary_value_lt rs
    have hv := h.value_eq
    have hc := Bool.toNat_le c
    rw [h.length_eq] at hr
    rw [pow_length_eq h0] at hb hr hv
    rw [testBit_top hb]
    cases C with
    | false =>
      simp only [Bool.toNat_false] at hv
      simp
      omega
    | true =>
      simp only [Bool.toNat_true] at hv
      simp
      omega

/-- Undoing it shifts to the right. -/
theorem shiftedRight (h : Doubles rs C bs c) (h0 : bs ≠ []) : ShiftedRight bs c rs C where
  length := h.length_eq.symm
  value := by
    have hv := h.value_eq
    have hC := Bool.toNat_le C
    rw [← h.length_eq, pow_length_eq h0, Nat.mul_assoc, Nat.mul_comm (2 ^ _)] at hv
    omega
  carry := by
    have hv := h.value_eq
    rw [← h.length_eq, pow_length_eq h0, Nat.mul_assoc] at hv
    rw [Nat.testBit_zero]
    cases C with
    | false =>
      simp only [Bool.toNat_false] at hv
      simp
      omega
    | true =>
      simp only [Bool.toNat_true] at hv
      simp
      omega

/-- What is doubled is determined by what results. -/
theorem unique {bs' : List UInt8} {c' : Bool} (h : Doubles bs c rs C) (h' : Doubles bs' c' rs C) :
    bs = bs' ∧ c = c' := by
  have hl : bs.length = bs'.length := h.length_eq.symm.trans h'.length_eq
  have hv := h.value_eq
  have hv' := h'.value_eq
  rw [hl, ← hv'] at hv
  cases c <;> cases c' <;> simp only [Bool.toNat_false, Bool.toNat_true] at hv
  · exact ⟨Radix.eq_of_binary_value hl (by omega), rfl⟩
  · omega
  · omega
  · exact ⟨Radix.eq_of_binary_value hl (by omega), rfl⟩

end Doubles

/-! ### Two's complement -/

/-- A two's-complement number is the number of its bytes, less all their values if the top bit is
set. -/
theorem signedValue_eq {bs : List UInt8} (h : bs ≠ []) :
    signedValue bs = Radix.binary.value bs -
      256 ^ bs.length * ((Radix.binary.value bs).testBit (8 * bs.length - 1)).toNat := by
  have hb := Radix.binary_value_lt bs
  rw [pow_length_eq h] at hb
  rw [testBit_top hb, signedValue, intCast_pow_length h, pow_length_eq h]
  generalize 2 ^ (8 * bs.length - 1) = p at hb
  rw [Int.bmod_def, Int.emod_eq_of_lt (by omega) (by omega)]
  by_cases hle : p ≤ Radix.binary.value bs
  · rw [decide_eq_true hle, Bool.toNat_true, if_neg (by omega)]
    omega
  · rw [decide_eq_false hle, Bool.toNat_false, if_pos (by omega)]
    omega

/-- With the top bit coming in, undoing the doubling halves a two's-complement number. -/
theorem Doubles.halved {bs rs : List UInt8} {C : Bool}
    (h : Doubles rs C bs ((Radix.binary.value bs).testBit (8 * bs.length - 1))) (h0 : bs ≠ []) :
    Halved bs rs C := by
  have hs := h.shiftedRight h0
  have hr0 : rs ≠ [] := by
    rintro rfl
    exact h0 (List.length_eq_zero_iff.1 hs.length.symm)
  have hr := Radix.binary_value_lt rs
  have hb := Radix.binary_value_lt bs
  have hv := hs.value
  rw [hs.length, pow_length_eq h0] at hr
  rw [pow_length_eq h0] at hb
  refine ⟨hs.length, ?_, hs.carry⟩
  rw [signedValue_eq hr0, signedValue_eq h0, hs.length, testBit_top hr, testBit_top hb,
    intCast_pow_length h0]
  rw [testBit_top hb] at hv
  generalize 2 ^ (8 * bs.length - 1) = p at *
  -- The top bit is kept, so both numbers are on the same side of zero.
  by_cases hle : p ≤ Radix.binary.value bs
  · rw [decide_eq_true hle, Bool.toNat_true, Nat.one_mul] at hv
    rw [decide_eq_true hle, decide_eq_true (by omega), Bool.toNat_true]
    omega
  · rw [decide_eq_false hle, Bool.toNat_false, Nat.zero_mul] at hv
    rw [decide_eq_false hle, decide_eq_false (by omega), Bool.toNat_false]
    omega

/-! ### Instructions -/

namespace Machine

variable {σ : Type} [Bus σ]

/-- A step shifts a byte, in a register or in memory at HL. -/
inductive ShiftsByte (k : Shift) (b r : UInt8) (m m' : Machine (Traced σ)) : Prop
  | register {code : Code} {s : Selector} {n : Nat} (code_eq : m.code? = some code)
      (shifts : code.inPlace? = some (.shift k, .register s)) (before : m.cpu.regs.byte s = .ok b)
      (step : m.step = .ok (n, m')) (after : m'.cpu.regs.byte s = .ok r)
  | memory {code : Code} {a : UInt16} {n : Nat} (code_eq : m.code? = some code)
      (shifts : code.inPlace? = some (.shift k, .indirect .hl))
      (steps : m.StepsBy code.bytes [.read a b, .write a r] n m')

/-- Steps shift bytes one after the other, the first of them with `k` and the others with `rest`.
Whatever happens between two of them leaves the carry flag as it is. -/
inductive ShiftsBytes (rest : Shift) :
    Shift → Machine (Traced σ) → List UInt8 → List UInt8 → Machine (Traced σ) → Prop
  | last {k : Shift} {b r : UInt8} {m m' : Machine (Traced σ)} (byte : m.ShiftsByte k b r m') :
      ShiftsBytes rest k m [b] [r] m'
  | cons {k : Shift} {b r : UInt8} {bs rs : List UInt8} {m m₁ m₂ m' : Machine (Traced σ)}
      (byte : m.ShiftsByte k b r m₁)
      (carry : (Flags.ofByte m₂.cpu.regs.f).carry = (Flags.ofByte m₁.cpu.regs.f).carry)
      (bytes : ShiftsBytes rest rest m₂ bs rs m') :
      ShiftsBytes rest k m (b :: bs) (r :: rs) m'

variable {m m' : Machine (Traced σ)} {k rest : Shift}

/-- An operation in place on memory finds it at HL. -/
theorem memory_of_inPlace (code : Code) :
    ∀ p ∈ code.inPlace?, p.2.dataSize = 1 → p.2 = .indirect .hl := by
  cases code with
  | base b =>
    revert b
    refine Byte.forall_of_fin ?_
    decide +kernel
  | bit b =>
    revert b
    refine Byte.forall_of_fin ?_
    decide +kernel

/-- A step that fetches a shift shifts a byte. -/
theorem exists_shiftsByte {code : Code} {o : Operand} (hc : m.code? = some code)
    (hk : code.inPlace? = some (.shift k, o)) : ∃ b r m', m.ShiftsByte k b r m' := by
  obtain ⟨m₀, hb⟩ := exists_begins hc
  obtain ⟨hm, -⟩ := code.operand_of_inPlace _ hk
  cases o with
  | register s =>
    obtain ⟨v, m', hv, hs, hr, -⟩ := hb.inPlace_register hk
    exact ⟨v, _, m', .register hc hk hv hs.step hr⟩
  | indirect s =>
    obtain ⟨⟩ : Operand.indirect s = .indirect .hl := memory_of_inPlace code _ hk rfl
    obtain ⟨v, m', hs, -⟩ := hb.inPlace_indirect hk
    exact ⟨v, _, m', .memory hc hk hs⟩
  | _ => cases hm

/-- The byte and the flags are those of the shift. -/
theorem ShiftsByte.eq {b r : UInt8} (h : m.ShiftsByte k b r m') :
    (r, Flags.ofByte m'.cpu.regs.f) = k.apply b true (.ofByte m.cpu.regs.f) := by
  cases h with
  | register hc hk hv hs hr =>
    obtain ⟨m₀, hb⟩ := exists_begins hc
    obtain ⟨v, m'', hv', hs', hr', hf⟩ := hb.inPlace_register hk
    obtain ⟨-, rfl⟩ := Prod.mk.inj (Except.ok.inj (hs.symm.trans hs'.step))
    obtain rfl : b = v := Except.ok.inj (hv.symm.trans hv')
    rw [Except.ok.inj (hr.symm.trans hr'), hf, Flags.ofByte_toByte]
    rfl
  | memory hc hk hs =>
    obtain ⟨m₀, hb⟩ := exists_begins hc
    obtain ⟨v, m'', hs', hregs⟩ := hb.inPlace_indirect hk
    obtain ⟨hd, rfl⟩ := hs.unique hs'
    simp only [InPlace.apply, Option.map_some, Option.toList_some, List.cons.injEq,
      Access.read.injEq, Access.write.injEq] at hd
    obtain ⟨⟨-, rfl⟩, ⟨-, rfl⟩, -⟩ := hd
    rw [hregs, Flags.ofByte_toByte]
    rfl

/-- The bytes and the carry flag are those of the chain. -/
theorem ShiftsBytes.eq {bs rs : List UInt8} (h : ShiftsBytes rest k m bs rs m') :
    rs = (shifts k rest (.ofByte m.cpu.regs.f) bs).1 ∧
      (Flags.ofByte m'.cpu.regs.f).carry = (shifts k rest (.ofByte m.cpu.regs.f) bs).2.carry := by
  induction h with
  | last byte =>
    rw [shifts, ← byte.eq]
    exact ⟨rfl, rfl⟩
  | cons byte carry _ ih =>
    obtain ⟨hb, hc⟩ := shifts_congr carry _
    rw [shifts, ← byte.eq, ih.1, ih.2, hb, hc]
    exact ⟨rfl, rfl⟩

end Machine

/-! ### The laws -/

/-- A chain to the right restores what a chain to the left was given. -/
theorem shiftsDown_shifts (fl : Flags) (bs : List UInt8) :
    let l := shifts .rl .rl fl bs
    (shiftsDown .rr .rr l.2 l.1).1 = bs ∧ (shiftsDown .rr .rr l.2 l.1).2.carry = fl.carry :=
  (doubles_shiftsDown _ _).unique (doubles_shifts fl bs)

/-- A chain to the right that begins with SRA halves a two's-complement number. -/
theorem halved_shiftsDown_sra (fl : Flags) {bs : List UInt8} (h : bs ≠ []) :
    Halved bs (shiftsDown .sra .rr fl bs).1 (shiftsDown .sra .rr fl bs).2.carry := by
  obtain ⟨l, b, rfl⟩ := List.eq_nil_or_concat bs |>.resolve_left h
  rw [List.concat_eq_append] at h ⊢
  have hd := doubles_shiftsDown { fl with carry := b.toNat.testBit 7 } (l ++ [b])
  rw [← testBit_concat l b] at hd
  rw [shiftsDown_sra, ← testBit_concat l b]
  exact hd.halved h

/-- The laws of shifts of numbers of several bytes. A chain of RL, from the lowest byte on, doubles
a number and adds the carry flag; the top bit goes to the carry flag. A chain of RR, from the
highest byte on, halves a number and puts the carry flag on top; the lowest bit goes to the carry
flag. A chain that begins with SLA or SRL does the same without the carry flag, and one that begins
with SRA halves a two's-complement number. RR undoes what RL does. Instructions that shift bytes one
after the other do all this, and every instruction that is a shift shifts a byte. -/
theorem shifts_number (fl : Flags) (bs : List UInt8) (h : bs ≠ []) :
    let left (first : Shift) := shifts first .rl fl bs
    let right (first : Shift) := shiftsDown first .rr fl bs
    let back (l : List UInt8 × Flags) := shiftsDown .rr .rr l.2 l.1
    ShiftedLeft bs fl.carry (left .rl).1 (left .rl).2.carry ∧
    ShiftedRight bs fl.carry (right .rr).1 (right .rr).2.carry ∧
    ShiftedLeft bs false (left .sla).1 (left .sla).2.carry ∧
    ShiftedRight bs false (right .srl).1 (right .srl).2.carry ∧
    Halved bs (right .sra).1 (right .sra).2.carry ∧
    ((back (left .rl)).1 = bs ∧ (back (left .rl)).2.carry = fl.carry) ∧
    ((back (left .sla)).1 = bs ∧ (back (left .sla)).2.carry = false) ∧
    ∀ {σ : Type} [Bus σ] (m : Machine (Traced σ)),
      (∀ first rest vs rs m', m.ShiftsBytes rest first vs rs m' →
        let r := shifts first rest (.ofByte m.cpu.regs.f) vs
        rs = r.1 ∧ (Flags.ofByte m'.cpu.regs.f).carry = r.2.carry) ∧
      ∀ code k o, m.code? = some code → code.inPlace? = some (.shift k, o) →
        ∃ b r m', m.ShiftsByte k b r m' := by
  intro left right back
  let fl' : Flags := { fl with carry := false }
  have hsla : left .sla = shifts .rl .rl fl' bs := shifts_sla fl h
  have hsrl : right .srl = shiftsDown .rr .rr fl' bs := shiftsDown_srl fl h
  refine ⟨(doubles_shifts fl bs).shiftedLeft h, (doubles_shiftsDown fl bs).shiftedRight h, ?_, ?_,
    halved_shiftsDown_sra fl h, shiftsDown_shifts fl bs, ?_, ?_⟩
  · rw [hsla]
    exact (doubles_shifts fl' bs).shiftedLeft h
  · rw [hsrl]
    exact (doubles_shiftsDown fl' bs).shiftedRight h
  · rw [hsla]
    exact shiftsDown_shifts fl' bs
  · intro σ _ m
    exact ⟨fun _ _ _ _ _ hs => hs.eq, fun _ _ _ hc hk => Machine.exists_shiftsByte hc hk⟩

/-- The number 8181 and a carry, doubled. -/
theorem shifts_number_of_two :
    shifts .rl .rl { carry := true } [0x81, 0x81] =
        ([0x03, 0x03], { carry := true }) ∧
      ShiftedLeft [0x81, 0x81] true [0x03, 0x03] true :=
  ⟨by decide, (shifts_number { carry := true } [0x81, 0x81] (by decide)).1⟩

end DotMatrix
