import DotMatrix.Processor.Register

/-!
# Operations and operands

An opcode stands for an operation on operands.

* `Operand` says where a byte operand lives; `Operand.selector` and `Operand.isIndirect` are what a
  listing shows of it.
* `ByteOp`, `Shift` and `Condition` are the families that several opcodes share.
* `BaseOp` is an operation of the first page, `BitOp` one of the second page, behind the code CB.
-/

namespace DotMatrix

/-- Where a byte operand lives. -/
inductive Operand
  /-- A byte register. -/
  | register (s : Selector)
  /-- Memory at a register pair. -/
  | indirect (s : Selector)
  /-- Memory at HL, which is then incremented. -/
  | indirectInc
  /-- Memory at HL, which is then decremented. -/
  | indirectDec
  /-- The byte after the opcode. -/
  | immediate
  /-- Memory at the word after the opcode. -/
  | absolute
  /-- Memory at FF00 plus the byte after the opcode. -/
  | highImmediate
  /-- Memory at FF00 plus C. -/
  | highC
  deriving DecidableEq, Repr

namespace Operand

/-- The operand in a three-bit register field; index 6 is memory at HL. -/
def ofIndex (i : Nat) : Operand :=
  match Selector.ofIndex i with
  | .hl => indirect .hl
  | s => register s

/-- What a listing mentions for an operand. -/
def selector : Operand → Selector
  | register s | indirect s => s
  | indirectInc | indirectDec => .hl
  | highC => .c
  | immediate | absolute | highImmediate => .immediate

/-- Whether the operand lives in memory that an address points to. -/
def isIndirect : Operand → Bool
  | register _ | immediate => false
  | _ => true

end Operand

/-- The eight operations on A and a byte. -/
inductive ByteOp
  | add
  | adc
  | sub
  | sbc
  | and
  | xor
  | or
  | cp
  deriving DecidableEq, Repr

namespace ByteOp

/-- The operation in a three-bit field. -/
def ofIndex (i : Nat) : ByteOp :=
  match i % 8 with
  | 0 => add
  | 1 => adc
  | 2 => sub
  | 3 => sbc
  | 4 => and
  | 5 => xor
  | 6 => or
  | _ => cp

/-- The mnemonic of an operation. -/
def mnemonic : ByteOp → String
  | add => "ADD"
  | adc => "ADC"
  | sub => "SUB"
  | sbc => "SBC"
  | and => "AND"
  | xor => "XOR"
  | or => "OR"
  | cp => "CP"

/-- All operations, in the order of the field. -/
def all : List ByteOp := (List.range 8).map ofIndex

end ByteOp

/-- Rotations and shifts of a byte. -/
inductive Shift
  | rlc
  | rrc
  | rl
  | rr
  | sla
  | sra
  | swap
  | srl
  deriving DecidableEq, Repr

namespace Shift

/-- The shift in a three-bit field. -/
def ofIndex (i : Nat) : Shift :=
  match i % 8 with
  | 0 => rlc
  | 1 => rrc
  | 2 => rl
  | 3 => rr
  | 4 => sla
  | 5 => sra
  | 6 => swap
  | _ => srl

/-- The mnemonic of a shift. -/
def mnemonic : Shift → String
  | rlc => "RLC"
  | rrc => "RRC"
  | rl => "RL"
  | rr => "RR"
  | sla => "SLA"
  | sra => "SRA"
  | swap => "SWAP"
  | srl => "SRL"

/-- All shifts, in the order of the field. -/
def all : List Shift := (List.range 8).map ofIndex

end Shift

/-- When a jump, call or return is taken. -/
inductive Condition
  | always
  | notZero
  | zero
  | notCarry
  | carry
  deriving DecidableEq, Repr

namespace Condition

/-- The condition in a two-bit field. -/
def ofIndex (i : Nat) : Condition :=
  match i % 4 with
  | 0 => notZero
  | 1 => zero
  | 2 => notCarry
  | _ => carry

/-- What a condition adds to a mnemonic. -/
def suffix : Condition → String
  | always => ""
  | notZero => " NZ"
  | zero => " Z"
  | notCarry => " NC"
  | carry => " C"

end Condition

/-- An operation of the first page. -/
inductive BaseOp
  | nop
  /-- A byte load; the source is read before the destination is resolved. -/
  | load (dst src : Operand)
  /-- A word load from the two bytes after the opcode. -/
  | loadWord (s : Selector)
  | loadSpHl
  /-- HL becomes SP plus a signed byte. -/
  | loadHlSpOffset
  /-- SP is stored at the word after the opcode. -/
  | storeSp
  | inc (o : Operand)
  | dec (o : Operand)
  | incWord (s : Selector)
  | decWord (s : Selector)
  | byteOp (op : ByteOp) (src : Operand)
  | addHl (s : Selector)
  | addSpOffset
  | push (s : Selector)
  | pop (s : Selector)
  | daa
  | cpl
  | ccf
  | scf
  | halt
  | stop
  | di
  | ei
  | jump (c : Condition)
  | jumpHl
  | jumpRelative (c : Condition)
  | call (c : Condition)
  | ret (c : Condition)
  | reti
  | rst (vector : UInt16)
  /-- A rotation of A that always clears the zero flag. -/
  | rotateA (k : Shift)
  /-- The code CB: the next byte is an operation of the second page. -/
  | bitPage
  | unknown (code : UInt8)
  deriving DecidableEq, Repr

/-- An operation of the second page. -/
inductive BitOp
  | shift (k : Shift) (o : Operand)
  /-- Test a bit. -/
  | test (n : Nat) (o : Operand)
  /-- Clear a bit. -/
  | reset (n : Nat) (o : Operand)
  /-- Set a bit. -/
  | set (n : Nat) (o : Operand)
  deriving DecidableEq, Repr

/-- The operand of a second-page operation. -/
def BitOp.operand : BitOp → Operand
  | shift _ o | test _ o | reset _ o | set _ o => o

end DotMatrix
