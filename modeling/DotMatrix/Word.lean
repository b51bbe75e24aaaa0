/-!
# Bytes and words

A byte is a `UInt8`, a word a `UInt16` made of a high and a low byte. Sums and differences are
also given exactly, in `Nat` and `Int`, so that a carry or a borrow is a statement about a number
that does not fit.

* `Word.ofBytes`, `Word.high`, `Word.low`: a word and its two bytes.
* `Byte.signed`, `Word.signed`: the two's-complement reading.
* `Byte.carries`, `Byte.borrows` and their half forms: the tests behind the carry flags.
-/

namespace DotMatrix

namespace Word

/-- The word with the given high and low byte. -/
def ofBytes (hi lo : UInt8) : UInt16 := UInt16.ofNat (hi.toNat * 256 + lo.toNat)

/-- The high byte of a word. -/
def high (w : UInt16) : UInt8 := UInt8.ofNat (w.toNat / 256)

/-- The low byte of a word. -/
def low (w : UInt16) : UInt8 := UInt8.ofNat w.toNat

/-- The two's-complement value of a word. -/
def signed (w : UInt16) : Int := w.toInt16.toInt

/-- The word whose two's-complement value is `i`, modulo 2^16. -/
def ofSigned (i : Int) : UInt16 := UInt16.ofInt i

/-- Whether `a + b` does not fit in a word. -/
def carries (a b : UInt16) : Bool := decide (0x10000 ≤ a.toNat + b.toNat)

/-- Whether the low twelve bits of `a + b` carry into bit 12. -/
def halfCarries (a b : UInt16) : Bool := decide (0x1000 ≤ a.toNat % 0x1000 + b.toNat % 0x1000)

/-- Whether `a - b` is negative. -/
def borrows (a b : UInt16) : Bool := decide (a.toNat < b.toNat)

theorem toNat_ofBytes (hi lo : UInt8) : (ofBytes hi lo).toNat = hi.toNat * 256 + lo.toNat := by
  have h := hi.toNat_lt
  have l := lo.toNat_lt
  simp only [ofBytes, UInt16.toNat_ofNat']
  omega

theorem toNat_high (w : UInt16) : (high w).toNat = w.toNat / 256 := by
  have h := w.toNat_lt
  simp only [high, UInt8.toNat_ofNat']
  omega

theorem toNat_low (w : UInt16) : (low w).toNat = w.toNat % 256 := by
  simp only [low, UInt8.toNat_ofNat']

@[simp] theorem high_ofBytes (hi lo : UInt8) : high (ofBytes hi lo) = hi := by
  have l := lo.toNat_lt
  apply UInt8.toNat_inj.1
  rw [toNat_high, toNat_ofBytes]
  omega

@[simp] theorem low_ofBytes (hi lo : UInt8) : low (ofBytes hi lo) = lo := by
  have l := lo.toNat_lt
  apply UInt8.toNat_inj.1
  rw [toNat_low, toNat_ofBytes]
  omega

@[simp] theorem ofBytes_high_low (w : UInt16) : ofBytes (high w) (low w) = w := by
  apply UInt16.toNat_inj.1
  rw [toNat_ofBytes, toNat_high, toNat_low]
  omega

end Word

namespace Byte

/-- The two's-complement value of a byte. -/
def signed (b : UInt8) : Int := b.toInt8.toInt

/-- The byte whose two's-complement value is `i`, modulo 2^8. -/
def ofSigned (i : Int) : UInt8 := UInt8.ofInt i

/-- One for a set carry, zero for a clear one. -/
def ofCarry (c : Bool) : UInt8 := if c then 1 else 0

/-- The exact sum of two bytes and a carry. -/
def sum (a b : UInt8) (c : Bool) : Nat := a.toNat + b.toNat + c.toNat

/-- The exact sum of the low nibbles of two bytes and a carry. -/
def nibbleSum (a b : UInt8) (c : Bool) : Nat := a.toNat % 16 + b.toNat % 16 + c.toNat

/-- The exact difference of two bytes and a borrow. -/
def difference (a b : UInt8) (c : Bool) : Int := a.toNat - b.toNat - c.toNat

/-- The exact difference of the low nibbles of two bytes and a borrow. -/
def nibbleDifference (a b : UInt8) (c : Bool) : Int :=
  (a.toNat % 16 : Nat) - (b.toNat % 16 : Nat) - c.toNat

/-- Whether `a + b` does not fit in a byte. -/
def carries (a b : UInt8) : Bool := decide (0x100 ≤ a.toNat + b.toNat)

/-- Whether the low nibbles of `a + b` carry into bit 4. -/
def halfCarries (a b : UInt8) : Bool := decide (0x10 ≤ a.toNat % 16 + b.toNat % 16)

/-- Whether `a - b` is negative. -/
def borrows (a b : UInt8) : Bool := decide (a.toNat < b.toNat)

/-- Whether the low nibble of `a` is below that of `b`. -/
def halfBorrows (a b : UInt8) : Bool := decide (a.toNat % 16 < b.toNat % 16)

/-- What holds of the 256 numbers below 2^8 holds of every byte. -/
theorem forall_of_fin {p : UInt8 → Prop} (h : ∀ n : Fin 256, p (UInt8.ofNat n)) (v : UInt8) :
    p v := by
  have hv := h ⟨v.toNat, v.toNat_lt⟩
  rwa [UInt8.ofNat_toNat] at hv

theorem sum_le (a b : UInt8) (c : Bool) : sum a b c ≤ 511 := by
  have ha := a.toNat_lt
  have hb := b.toNat_lt
  have hc := Bool.toNat_le c
  unfold sum
  omega

theorem difference_bounds (a b : UInt8) (c : Bool) :
    -256 ≤ difference a b c ∧ difference a b c ≤ 255 := by
  have ha := a.toNat_lt
  have hb := b.toNat_lt
  have hc := Bool.toNat_le c
  unfold difference
  omega

end Byte

/-- The word `w` moved by the two's-complement value of a byte, modulo 2^16. -/
def Word.addSigned (w : UInt16) (n : UInt8) : UInt16 := w + Word.ofSigned (Byte.signed n)

end DotMatrix
