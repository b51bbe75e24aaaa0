import DotMatrix.Processor.Opcode
import DotMatrix.Text.Hex

/-!
# Listings

A listing is one line of text about an instruction: where it was fetched, its code, its mnemonic,
up to two operands and its cycles.

* `Listing.text` writes a listing.
* `Fetched` records the last instruction that a processor fetched; `Fetched.listing` is its
  listing, worked out from the code alone.
-/

namespace DotMatrix

/-- The parts of a line about an instruction. -/
structure Listing where
  mnemonic : String := "NOP"
  first : Selector := .none
  second : Selector := .none
  firstIndirect : Bool := false
  secondIndirect : Bool := false
  /-- The address of the opcode. -/
  pc : UInt16 := 0
  /-- The code; a second-page code has CB as its high byte. -/
  opcode : UInt16 := 0
  twoByte : Bool := false
  cycles : Nat := 0
  deriving DecidableEq, Repr

namespace Listing

/-- An operand, in brackets when it is indirect. -/
def operandText (s : Selector) (isIndirect : Bool) : String :=
  if isIndirect then
    match s with
    | .immediate => "(nn)"
    | s => "(" ++ s.text ++ ")"
  else s.text

/-- The line of a listing. -/
def text (i : Listing) : String :=
  let code :=
    if i.twoByte then Hex.word i.opcode ++ " "
    else Hex.digits 16 2 i.opcode.toNat ++ "   "
  let first := if i.first = .none then "" else " " ++ operandText i.first i.firstIndirect
  let second := if i.second = .none then "" else "," ++ operandText i.second i.secondIndirect
  Hex.word i.pc ++ ": " ++ code ++ i.mnemonic ++ first ++ second ++
    " [" ++ toString i.cycles ++ " cycles]"

/-- A listing of a mnemonic and at most two operands. -/
def ofOperands (mnemonic : String) (first second : Operand := .register .none) : Listing where
  mnemonic := mnemonic
  first := first.selector
  second := second.selector
  firstIndirect := first.selector ≠ .none && first.isIndirect
  secondIndirect := second.selector ≠ .none && second.isIndirect

end Listing

/-- The mnemonic of a byte load, which depends on the addressing of its operands. -/
def Operand.loadMnemonic : Operand → Operand → String
  | .highImmediate, _ | .highC, _ | _, .highImmediate | _, .highC => "LDH"
  | .indirectInc, _ | _, .indirectInc => "LDI"
  | .indirectDec, _ | _, .indirectDec => "LDD"
  | _, _ => "LD"

/-- Mnemonic and operands of a first-page operation. -/
def BaseOp.listing : BaseOp → Listing
  | nop => .ofOperands "NOP"
  | load dst src => .ofOperands (dst.loadMnemonic src) dst src
  | loadWord s => .ofOperands "LD" (.register s) .immediate
  | loadSpHl => .ofOperands "LD" (.register .sp) (.register .hl)
  | loadHlSpOffset => .ofOperands "LD" (.register .hl) (.register .sp)
  | storeSp => .ofOperands "LD" .absolute (.register .sp)
  | inc o => .ofOperands "INC" o
  | dec o => .ofOperands "DEC" o
  | incWord s => .ofOperands "INC" (.register s)
  | decWord s => .ofOperands "DEC" (.register s)
  | byteOp op src => .ofOperands op.mnemonic (.register .a) src
  | addHl s => .ofOperands "ADD" (.register .hl) (.register s)
  | addSpOffset => .ofOperands "ADD" (.register .sp) .immediate
  | push s => .ofOperands "PUSH" (.register s)
  | pop s => .ofOperands "POP" (.register s)
  | daa => .ofOperands "DAA"
  | cpl => .ofOperands "CPL"
  | ccf => .ofOperands "CCF"
  | scf => .ofOperands "SCF"
  | halt => .ofOperands "HALT"
  | stop => .ofOperands "STOP"
  | di => .ofOperands "DI"
  | ei => .ofOperands "EI"
  | jump c => .ofOperands ("JP" ++ c.suffix) .immediate
  | jumpHl => .ofOperands "JP" (.register .hl)
  | jumpRelative c => .ofOperands ("JR" ++ c.suffix) .immediate
  | call c => .ofOperands ("CALL" ++ c.suffix) .immediate
  | ret c => .ofOperands ("RET" ++ c.suffix)
  | reti => .ofOperands "RETI"
  | rst v => .ofOperands ("RST " ++ Hex.digits 16 2 v.toNat ++ "H")
  | rotateA k => .ofOperands (k.mnemonic ++ "A")
  | bitPage => .ofOperands "PREFIX CB"
  | unknown _ => .ofOperands "UNKNOWN"

/-- Mnemonic and operands of a second-page operation; a bit number comes first. -/
def BitOp.listing : BitOp → Listing
  | shift k o => .ofOperands k.mnemonic o
  | test n o => .ofOperands "BIT" (.register (.bit n)) o
  | reset n o => .ofOperands "RES" (.register (.bit n)) o
  | set n o => .ofOperands "SET" (.register (.bit n)) o

/-- The code of a fetched instruction: one byte, or one byte behind CB. -/
inductive Code
  | base (b : UInt8)
  | bit (b : UInt8)
  deriving DecidableEq, Repr

/-- The last instruction that was fetched. -/
structure Fetched where
  /-- The address of the opcode. -/
  pc : UInt16 := 0
  code : Code := .base 0
  cycles : Nat := 0
  deriving DecidableEq, Repr

namespace Fetched

/-- The listing of a fetched instruction. -/
def listing (i : Fetched) : Listing :=
  match i.code with
  | .base b =>
    { (BaseOp.decode b).listing with
      pc := i.pc, opcode := b.toUInt16, twoByte := false, cycles := i.cycles }
  | .bit b =>
    { (BitOp.decode b).listing with
      pc := i.pc, opcode := Word.ofBytes 0xCB b, twoByte := true, cycles := i.cycles }

/-- The line of a fetched instruction. -/
def text (i : Fetched) : String := i.listing.text

end Fetched

end DotMatrix
