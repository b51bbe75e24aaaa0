import DotMatrix.Processor.Arithmetic
import DotMatrix.Processor.Listing

/-!
# What an opcode asks for

An opcode alone decides how many bytes its instruction has, and, up to the condition of a call or a
return, how many accesses to memory it makes.

* `Opcode.size` is the number of bytes of an instruction, `BaseOp.dataSize` and `BitOp.dataSize` the
  number of accesses it makes after they are fetched.
* `Code.cycles` is the cost of an instruction: four cycles for each of these. It is one of five
  numbers (`Code.cycles_mem`).
* `BaseOp.isValid` and `BitOp.isValid` say that an operation has operands of the right kind, so that
  nothing is at fault when it is executed. Decoding gives no other (`BaseOp.isValid_decode`,
  `BitOp.isValid_decode`).
-/

namespace DotMatrix

/-! ### Operands -/

/-- Whether a selector names a byte register. -/
def Selector.isByte : Selector → Bool
  | a | f | b | c | d | e | h | l => true
  | _ => false

/-- Whether a selector names a word register other than the program counter. -/
def Selector.isPair : Selector → Bool
  | af | bc | de | hl | sp => true
  | _ => false

namespace Operand

/-- The number of instruction bytes that an operand takes. -/
def size : Operand → Nat
  | immediate | highImmediate => 1
  | absolute => 2
  | _ => 0

/-- The number of accesses to memory that reading or writing an operand takes. -/
def dataSize : Operand → Nat
  | register _ | immediate => 0
  | _ => 1

/-- Whether an operand can be read. -/
def isReadable : Operand → Bool
  | register s => s.isByte
  | indirect s => s.isPair
  | _ => true

/-- Whether an operand can be written. -/
def isWritable : Operand → Bool
  | immediate => false
  | o => o.isReadable

theorem isReadable_of_isWritable {o : Operand} (h : o.isWritable = true) : o.isReadable = true := by
  cases o with
  | immediate => cases h
  | _ => exact h

/-- Whether an operand can be modified in place. -/
def isModifiable : Operand → Bool
  | register s => s.isByte
  | indirect s => s.isPair
  | _ => false

end Operand

/-! ### Operations -/

namespace BaseOp

/-- The number of instruction bytes after the opcode. -/
def size : BaseOp → Nat
  | load dst src => src.size + dst.size
  | byteOp _ src => src.size
  | loadWord _ | storeSp | jump _ | call _ => 2
  | loadHlSpOffset | addSpOffset | jumpRelative _ | stop | bitPage => 1
  | _ => 0

/-- Whether an operation is a call or a return that the flags let happen. -/
def isTaken (op : BaseOp) (fl : Flags) : Bool :=
  match op with
  | call c | ret c => c.holds fl
  | _ => false

/-- The number of accesses to memory, given whether a call or a return happens. -/
def dataSize (op : BaseOp) (taken : Bool) : Nat :=
  match op with
  | load dst src => src.dataSize + dst.dataSize
  | byteOp _ src => src.dataSize
  | inc o | dec o => 2 * o.dataSize
  | storeSp | push _ | pop _ | reti | rst _ => 2
  | call _ | ret _ => if taken then 2 else 0
  | _ => 0

/-- Whether the operands of an operation are of the right kind. In a load, the source makes no
access to memory or the destination takes no instruction byte, so that all instruction bytes come
first. -/
def isValid : BaseOp → Bool
  | load dst src => dst.isWritable && src.isReadable && (src.dataSize == 0 || dst.size == 0)
  | loadWord s => s = .bc ∨ s = .de ∨ s = .hl ∨ s = .sp
  | inc o | dec o => o.isModifiable
  | incWord s | decWord s | addHl s | push s | pop s => s.isPair
  | byteOp _ src => src.isReadable
  | rst v => v.toNat < 0x40 ∧ v.toNat % 8 = 0
  | _ => true

end BaseOp

namespace BitOp

/-- The number of accesses to memory; a test does not write back. -/
def dataSize : BitOp → Nat
  | test _ o => o.dataSize
  | shift _ o | reset _ o | set _ o => 2 * o.dataSize

/-- Whether the operand can be modified in place, and a bit number is one of a byte. -/
def isValid : BitOp → Bool
  | shift _ o => o.isModifiable
  | test n o | reset n o | set n o => n < 8 && o.isModifiable

end BitOp

/-! ### Codes -/

/-- Every code stands for a valid operation. -/
theorem BaseOp.isValid_decode (code : UInt8) : (decode code).isValid = true := by
  revert code
  refine Byte.forall_of_fin ?_
  decide +kernel

/-- Every code of the second page stands for a valid operation. -/
theorem BitOp.isValid_decode (code : UInt8) : (decode code).isValid = true := by
  revert code
  refine Byte.forall_of_fin ?_
  decide +kernel

/-- CB is the only code that leads to the second page. -/
theorem BaseOp.decode_eq_bitPage_iff (code : UInt8) : decode code = .bitPage ↔ code = 0xCB := by
  revert code
  refine Byte.forall_of_fin ?_
  decide +kernel

/-- The number of bytes of the instruction that an opcode begins. -/
def Opcode.size (code : UInt8) : Nat := 1 + (BaseOp.decode code).size

/-- An instruction has one to three bytes. -/
theorem Opcode.size_mem (code : UInt8) : Opcode.size code ∈ [1, 2, 3] := by
  revert code
  refine Byte.forall_of_fin ?_
  decide +kernel

namespace Code

/-- A code is spelled by an opcode and the bytes after it. -/
def Spells (code : Code) (opcode : UInt8) (operands : List UInt8) : Prop :=
  match code with
  | base b => b ≠ 0xCB ∧ opcode = b
  | bit b => opcode = 0xCB ∧ operands = [b]

/-- Whether a code stands for a call or a return that the flags let happen. -/
def isTaken (code : Code) (fl : Flags) : Bool :=
  match code with
  | base b => (BaseOp.decode b).isTaken fl
  | bit _ => false

/-- The number of bytes of an instruction. -/
def size : Code → Nat
  | base b => Opcode.size b
  | bit _ => 2

/-- The number of accesses to memory, given whether a call or a return happens. -/
def dataSize (code : Code) (taken : Bool) : Nat :=
  match code with
  | base b => (BaseOp.decode b).dataSize taken
  | bit b => (BitOp.decode b).dataSize

/-- The cost of an instruction, given whether a call or a return happens. -/
def cycles (code : Code) (taken : Bool) : Nat := 4 * (code.size + code.dataSize taken)

theorem cycles_mem (code : Code) (taken : Bool) : code.cycles taken ∈ [4, 8, 12, 16, 20] := by
  cases code with
  | base b =>
    revert b
    refine Byte.forall_of_fin ?_
    cases taken <;> decide +kernel
  | bit b =>
    revert b
    refine Byte.forall_of_fin ?_
    cases taken <;> decide +kernel

end Code

end DotMatrix
