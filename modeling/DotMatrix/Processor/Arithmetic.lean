import DotMatrix.Processor.Fault
import DotMatrix.Processor.Flags

/-!
# Arithmetic

Every arithmetic operation is a function from values and flags to values and flags.

* `Arithmetic.add` and `Arithmetic.sub` are byte addition and subtraction with a carry;
  `CarryBasis` says which operands their half-carry and carry flags compare.
* `ByteOp.apply` is one of the eight operations on A, `Shift.apply` a rotation or shift,
  `BitOp.apply` an operation of the second page.
* `Arithmetic.addWords` and `Arithmetic.offset` are the word additions, `Arithmetic.daa` the
  decimal adjustment.
-/

namespace DotMatrix

/-- What the half-carry and carry flags of a byte operation compare. -/
inductive CarryBasis
  /-- The operands, the carry counted on its own. -/
  | operands
  /-- A and the operand with the carry folded into it, modulo 2^8. -/
  | folded
  /-- The result and the operand with the carry folded into it, modulo 2^8. -/
  | updated
  deriving DecidableEq, Repr

/-- What the flags of an operation compare when its operand comes from `src`. -/
def FlagRules.basis (r : FlagRules) (src : Operand) : CarryBasis :=
  match r.carrySource with
  | .operands => .operands
  | .postResult => if src = .immediate then .folded else .updated

namespace FlagRules

theorem basis_of_operands {rules : FlagRules} (h : rules.carrySource = .operands) (src : Operand) :
    rules.basis src = .operands := by
  rw [basis, h]

/-- Only an immediate operand is treated apart. -/
theorem basis_congr (rules : FlagRules) {src src' : Operand} (h : src ≠ .immediate)
    (h' : src' ≠ .immediate) : rules.basis src = rules.basis src' := by
  rw [basis, basis, if_neg h, if_neg h']

end FlagRules

namespace Arithmetic

/-- The sum of A, a byte and a carry. -/
def add (basis : CarryBasis) (a v : UInt8) (c : Bool) : UInt8 × Flags :=
  let result := UInt8.ofNat (Byte.sum a v c)
  let folded := v + Byte.ofCarry c
  (result,
    { zero := result == 0
      subtract := false
      halfCarry :=
        match basis with
        | .operands => decide (0x10 ≤ Byte.nibbleSum a v c)
        | .folded => Byte.halfCarries a folded
        | .updated => Byte.halfCarries result folded
      carry :=
        match basis with
        | .operands => decide (0x100 ≤ Byte.sum a v c)
        | .folded => Byte.carries a folded
        | .updated => Byte.carries result folded })

/-- The difference of A, a byte and a borrow. -/
def sub (basis : CarryBasis) (a v : UInt8) (c : Bool) : UInt8 × Flags :=
  let result := UInt8.ofInt (Byte.difference a v c)
  let folded := v + Byte.ofCarry c
  (result,
    { zero := result == 0
      subtract := true
      halfCarry :=
        match basis with
        | .operands => decide (Byte.nibbleDifference a v c < 0)
        | .folded => Byte.halfBorrows a folded
        | .updated => Byte.halfBorrows result folded
      carry :=
        match basis with
        | .operands => decide (Byte.difference a v c < 0)
        | .folded => Byte.borrows a folded
        | .updated => Byte.borrows result folded })

/-- The result of a logical operation and its flags; only AND sets the half carry. -/
def logic (rules : FlagRules) (result : UInt8) (halfCarry : Bool) : UInt8 × Flags :=
  (result,
    { zero := result == 0
      subtract := rules.logicSetsSubtract
      halfCarry := halfCarry
      carry := false })

/-- A byte plus one; the carry flag is kept. -/
def inc (rules : FlagRules) (v : UInt8) (fl : Flags) : UInt8 × Flags :=
  let result := v + 1
  (result,
    { fl with
      zero := result == 0
      subtract := false
      halfCarry :=
        match rules.carrySource with
        | .operands => Byte.halfCarries v 1
        | .postResult => Byte.halfCarries result 1 })

/-- A byte minus one; the carry flag is kept. -/
def dec (rules : FlagRules) (v : UInt8) (fl : Flags) : UInt8 × Flags :=
  let result := v - 1
  (result,
    { fl with
      zero := result == 0
      subtract := true
      halfCarry :=
        match rules.carrySource with
        | .operands => Byte.halfBorrows v 1
        | .postResult => Byte.halfBorrows result 1 })

/-- The sum of two words, with flags from bits 11 and 15; the zero flag is kept. -/
def addWords (x y : UInt16) (fl : Flags) : UInt16 × Flags :=
  (x + y,
    { fl with
      subtract := false
      halfCarry := Word.halfCarries x y
      carry := Word.carries x y })

/-- A word moved by a signed byte, with flags from the unsigned sum of the low bytes. -/
def offset (w : UInt16) (n : UInt8) : UInt16 × Flags :=
  (Word.addSigned w n,
    { zero := false
      subtract := false
      halfCarry := Byte.halfCarries (Word.low w) n
      carry := Byte.carries (Word.low w) n })

/-- What the decimal adjustment adds to A, or subtracts from it. -/
def adjustment (a : UInt8) (fl : Flags) : UInt8 :=
  let low := fl.halfCarry || (!fl.subtract && decide (9 < a.toNat % 16))
  let high := fl.carry || (!fl.subtract && decide (0x99 < a.toNat))
  (if high then 0x60 else 0) + (if low then 0x06 else 0)

/-- Decimal adjustment of A after an addition or subtraction; the subtract flag is kept. -/
def daa (a : UInt8) (fl : Flags) : UInt8 × Flags :=
  let n := adjustment a fl
  let result := if fl.subtract then a - n else a + n
  (result,
    { fl with
      zero := result == 0
      halfCarry := false
      carry := decide (0x60 ≤ n.toNat) })

end Arithmetic

/-- The new A and flags of an operation on A and a byte that comes from `src`. -/
def ByteOp.apply (op : ByteOp) (rules : FlagRules) (src : Operand) (a v : UInt8) (fl : Flags) :
    UInt8 × Flags :=
  match op with
  | .add => Arithmetic.add (rules.basis src) a v false
  | .adc => Arithmetic.add (rules.basis src) a v fl.carry
  | .sub => Arithmetic.sub (rules.basis src) a v false
  | .sbc => Arithmetic.sub (rules.basis src) a v fl.carry
  | .and => Arithmetic.logic rules (a &&& v) true
  | .xor => Arithmetic.logic rules (a ^^^ v) false
  | .or => Arithmetic.logic rules (a ||| v) false
  | .cp => (a, (Arithmetic.sub (rules.basis src) a v false).2)

namespace Shift

/-- The byte that a rotation or shift makes of `v` with carry `c`. -/
def result (k : Shift) (v : UInt8) (c : Bool) : UInt8 :=
  match k with
  | rlc => v <<< 1 ||| v >>> 7
  | rrc => v >>> 1 ||| v <<< 7
  | rl => v <<< 1 ||| Byte.ofCarry c
  | rr => v >>> 1 ||| Byte.ofCarry c <<< 7
  | sla => v <<< 1
  | sra => v >>> 1 ||| v &&& 0x80
  | swap => v <<< 4 ||| v >>> 4
  | srl => v >>> 1

/-- The bit that a rotation or shift moves out of `v`. -/
def carryOut (k : Shift) (v : UInt8) : Bool :=
  match k with
  | rlc | rl | sla => v.toNat.testBit 7
  | rrc | rr | sra | srl => v.toNat.testBit 0
  | swap => false

/-- A rotation or shift of a byte. The forms on A alone never set the zero flag. -/
def apply (k : Shift) (v : UInt8) (setsZero : Bool) (fl : Flags) : UInt8 × Flags :=
  let r := k.result v fl.carry
  (r,
    { zero := setsZero && r == 0
      subtract := false
      halfCarry := false
      carry := k.carryOut v })

end Shift

namespace BitOp

/-- The byte with only bit `n` set. -/
def mask (n : Nat) : UInt8 := UInt8.ofNat (1 <<< n)

/-- What a second-page operation makes of a byte: a new byte, or none when it only tests. -/
def apply (op : BitOp) (v : UInt8) (fl : Flags) : Except Fault (Option UInt8 × Flags) :=
  match op with
  | shift k _ => .ok (some (k.apply v true fl).1, (k.apply v true fl).2)
  | test n _ =>
    if n < 8 then
      .ok (none,
        { fl with
          zero := !v.toNat.testBit n
          subtract := false
          halfCarry := true })
    else .error (.badBit n)
  | reset n _ => if n < 8 then .ok (some (v &&& ~~~mask n), fl) else .error (.badBit n)
  | set n _ => if n < 8 then .ok (some (v ||| mask n), fl) else .error (.badBit n)

end BitOp

/-- Whether a condition holds of the flags. -/
def Condition.holds (c : Condition) (fl : Flags) : Bool :=
  match c with
  | always => true
  | notZero => !fl.zero
  | zero => fl.zero
  | notCarry => !fl.carry
  | carry => fl.carry

end DotMatrix
