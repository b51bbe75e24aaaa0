import DotMatrix.Word

/-!
# The flags

The upper nibble of F holds four flags: zero, subtract, half carry and carry, from bit 7 down. An
instruction works on the decoded `Flags` and writes the byte back when it is done.

`FlagRules` says which of two published tables the flags of byte arithmetic follow.
-/

namespace DotMatrix

/-- The decoded flags. -/
structure Flags where
  zero : Bool := false
  subtract : Bool := false
  halfCarry : Bool := false
  carry : Bool := false
  deriving DecidableEq, Repr

namespace Flags

/-- The flags in the upper nibble of a byte. -/
def ofByte (f : UInt8) : Flags where
  zero := f.toNat.testBit 7
  subtract := f.toNat.testBit 6
  halfCarry := f.toNat.testBit 5
  carry := f.toNat.testBit 4

/-- The byte of four flags; its low nibble is zero. -/
def toByte (fl : Flags) : UInt8 :=
  (if fl.zero then 0x80 else 0) ||| (if fl.subtract then 0x40 else 0) |||
    (if fl.halfCarry then 0x20 else 0) ||| (if fl.carry then 0x10 else 0)

/-- Four places, each the letter of a set flag or a dash. -/
def text (fl : Flags) : String :=
  let mark (set : Bool) (c : Char) : Char := if set then c else '-'
  String.ofList
    [mark fl.zero 'Z', mark fl.subtract 'N', mark fl.halfCarry 'H', mark fl.carry 'C']

@[simp] theorem ofByte_toByte (fl : Flags) : ofByte fl.toByte = fl := by
  rcases fl with ⟨_ | _, _ | _, _ | _, _ | _⟩ <;> rfl

@[simp] theorem toByte_ofByte (f : UInt8) : (ofByte f).toByte = f &&& 0xF0 := by
  revert f
  refine Byte.forall_of_fin ?_
  decide +kernel

end Flags

/-- Where the half-carry and carry flags of byte arithmetic come from. -/
inductive CarrySource
  /-- The operands before the operation. -/
  | operands
  /-- The updated value, and the operand with the carry folded into it. -/
  | postResult
  deriving DecidableEq, Repr

/-- Which flag table byte arithmetic follows. -/
structure FlagRules where
  carrySource : CarrySource := .operands
  /-- Whether AND, OR and XOR set the subtract flag. -/
  logicSetsSubtract : Bool := true
  deriving DecidableEq, Repr

end DotMatrix
