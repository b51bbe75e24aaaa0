import DotMatrix.Processor.Operation

/-!
# Opcodes

An opcode splits into three fields of 2, 3 and 3 bits. The first picks a block of 64 codes; within
a block the third field picks a column and the second a row. `BaseOp.decode` and `BitOp.decode`
read an operation off the fields of its code.
-/

namespace DotMatrix

namespace Opcode

/-- The block of a code: its top two bits. -/
def block (code : UInt8) : Nat := code.toNat / 64

/-- The row of a code: its middle three bits. -/
def row (code : UInt8) : Nat := code.toNat / 8 % 8

/-- The column of a code: its low three bits. -/
def column (code : UInt8) : Nat := code.toNat % 8

/-- The pair in a two-bit field, the last one being SP. -/
def pairSp (i : Nat) : Selector :=
  match i % 4 with
  | 0 => .bc
  | 1 => .de
  | 2 => .hl
  | _ => .sp

/-- The pair in a two-bit field, the last one being AF. -/
def pairAf (i : Nat) : Selector :=
  match i % 4 with
  | 0 => .bc
  | 1 => .de
  | 2 => .hl
  | _ => .af

/-- Memory in a two-bit field of the loads of A. -/
def memory (i : Nat) : Operand :=
  match i % 4 with
  | 0 => .indirect .bc
  | 1 => .indirect .de
  | 2 => .indirectInc
  | _ => .indirectDec

end Opcode

open Opcode

namespace BaseOp

/-- Block 0: word loads and arithmetic, increments, relative jumps, accumulator shorthands. -/
def decodeFirst (y : Nat) : Nat → BaseOp
  | 0 =>
    match y with
    | 0 => nop
    | 1 => storeSp
    | 2 => stop
    | 3 => jumpRelative .always
    | y => jumpRelative (.ofIndex y)
  | 1 => if y % 2 = 0 then loadWord (pairSp (y / 2)) else addHl (pairSp (y / 2))
  | 2 =>
    if y % 2 = 0 then load (memory (y / 2)) (.register .a)
    else load (.register .a) (memory (y / 2))
  | 3 => if y % 2 = 0 then incWord (pairSp (y / 2)) else decWord (pairSp (y / 2))
  | 4 => inc (.ofIndex y)
  | 5 => dec (.ofIndex y)
  | 6 => load (.ofIndex y) .immediate
  | _ =>
    match y with
    | 4 => daa
    | 5 => cpl
    | 6 => scf
    | 7 => ccf
    | y => rotateA (.ofIndex y)

/-- Block 3: returns, jumps, calls, the stack, immediate arithmetic and the loads of high memory. -/
def decodeLast (code : UInt8) (y : Nat) : Nat → BaseOp
  | 0 =>
    match y with
    | 4 => load .highImmediate (.register .a)
    | 5 => addSpOffset
    | 6 => load (.register .a) .highImmediate
    | 7 => loadHlSpOffset
    | y => ret (.ofIndex y)
  | 1 =>
    match y with
    | 1 => ret .always
    | 3 => reti
    | 5 => jumpHl
    | 7 => loadSpHl
    | y => pop (pairAf (y / 2))
  | 2 =>
    match y with
    | 4 => load .highC (.register .a)
    | 5 => load .absolute (.register .a)
    | 6 => load (.register .a) .highC
    | 7 => load (.register .a) .absolute
    | y => jump (.ofIndex y)
  | 3 =>
    match y with
    | 0 => jump .always
    | 1 => bitPage
    | 6 => di
    | 7 => ei
    | _ => unknown code
  | 4 => if y < 4 then call (.ofIndex y) else unknown code
  | 5 =>
    if y % 2 = 0 then push (pairAf (y / 2)) else if y = 1 then call .always else unknown code
  | 6 => byteOp (.ofIndex y) .immediate
  | _ => rst (UInt16.ofNat (8 * y))

/-- The operation of a code of the first page. -/
def decode (code : UInt8) : BaseOp :=
  match block code with
  | 0 => decodeFirst (row code) (column code)
  | 1 =>
    if row code = 6 ∧ column code = 6 then halt
    else load (.ofIndex (row code)) (.ofIndex (column code))
  | 2 => byteOp (.ofIndex (row code)) (.ofIndex (column code))
  | _ => decodeLast code (row code) (column code)

end BaseOp

namespace BitOp

/-- The operation of a code of the second page. -/
def decode (code : UInt8) : BitOp :=
  let o := Operand.ofIndex (column code)
  match block code with
  | 0 => shift (.ofIndex (row code)) o
  | 1 => test (row code) o
  | 2 => reset (row code) o
  | _ => set (row code) o

end BitOp

end DotMatrix
