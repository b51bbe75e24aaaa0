import DotMatrix.Word

/-!
# The register file

Eight byte registers, the stack pointer and the program counter. Byte registers are also read in
pairs; the low nibble of F always reads as zero through the pair AF and through the register F.

* `Selector` names what an instruction may mention: nothing, a byte register, a word register,
  an immediate, or a bit number.
* `Registers.byte`, `Registers.setByte`, `Registers.word`, `Registers.setWord` look a selector up;
  a selector of the wrong width is a `WidthError`.
-/

namespace DotMatrix

/-- What an instruction may mention. -/
inductive Selector
  | none
  | a
  | f
  | b
  | c
  | d
  | e
  | h
  | l
  | af
  | bc
  | de
  | hl
  | sp
  | pc
  | immediate
  | bit (n : Nat)
  deriving DecidableEq, Repr

namespace Selector

/-- The selector in a three-bit field: B, C, D, E, H, L, HL (standing for memory), A. -/
def ofIndex (i : Nat) : Selector :=
  match i % 8 with
  | 0 => b
  | 1 => c
  | 2 => d
  | 3 => e
  | 4 => h
  | 5 => l
  | 6 => hl
  | _ => a

/-- The text of a selector in a listing. -/
def text : Selector → String
  | none => ""
  | a => "A"
  | f => "F"
  | b => "B"
  | c => "C"
  | d => "D"
  | e => "E"
  | h => "H"
  | l => "L"
  | af => "AF"
  | bc => "BC"
  | de => "DE"
  | hl => "HL"
  | sp => "SP"
  | pc => "PC"
  | immediate => "n"
  | bit n => toString n

/-- The name of a selector in an error. -/
def label : Selector → String
  | none => "None"
  | immediate => "Immediate"
  | bit n => "Bit(" ++ toString n ++ ")"
  | s => s.text

end Selector

/-- A selector used at the wrong width. -/
inductive WidthError
  | notByte (s : Selector)
  | notWord (s : Selector)
  deriving DecidableEq, Repr

/-- The wording of a width error. -/
def WidthError.message : WidthError → String
  | notByte s => s.label ++ " is not an 8-bit register"
  | notWord s => s.label ++ " is not a 16-bit register"

/-- The register file. F may hold any byte; its low nibble is masked where it is read. -/
structure Registers where
  a : UInt8 := 0
  f : UInt8 := 0
  b : UInt8 := 0
  c : UInt8 := 0
  d : UInt8 := 0
  e : UInt8 := 0
  h : UInt8 := 0
  l : UInt8 := 0
  sp : UInt16 := 0
  pc : UInt16 := 0
  deriving DecidableEq, Repr

namespace Registers

/-- The pair AF, with the low nibble of F as zero. -/
def af (r : Registers) : UInt16 := Word.ofBytes r.a (r.f &&& 0xF0)

/-- The pair BC. -/
def bc (r : Registers) : UInt16 := Word.ofBytes r.b r.c

/-- The pair DE. -/
def de (r : Registers) : UInt16 := Word.ofBytes r.d r.e

/-- The pair HL. -/
def hl (r : Registers) : UInt16 := Word.ofBytes r.h r.l

/-- Set the pair AF; the low nibble of F becomes zero. -/
def setAf (r : Registers) (w : UInt16) : Registers :=
  { r with a := Word.high w, f := Word.low w &&& 0xF0 }

/-- Set the pair BC. -/
def setBc (r : Registers) (w : UInt16) : Registers := { r with b := Word.high w, c := Word.low w }

/-- Set the pair DE. -/
def setDe (r : Registers) (w : UInt16) : Registers := { r with d := Word.high w, e := Word.low w }

/-- Set the pair HL. -/
def setHl (r : Registers) (w : UInt16) : Registers := { r with h := Word.high w, l := Word.low w }

/-- The byte register that a selector names. -/
def byte (r : Registers) : Selector → Except WidthError UInt8
  | .a => .ok r.a
  | .f => .ok (r.f &&& 0xF0)
  | .b => .ok r.b
  | .c => .ok r.c
  | .d => .ok r.d
  | .e => .ok r.e
  | .h => .ok r.h
  | .l => .ok r.l
  | s => .error (.notByte s)

/-- Set the byte register that a selector names. -/
def setByte (r : Registers) (s : Selector) (v : UInt8) : Except WidthError Registers :=
  match s with
  | .a => .ok { r with a := v }
  | .f => .ok { r with f := v &&& 0xF0 }
  | .b => .ok { r with b := v }
  | .c => .ok { r with c := v }
  | .d => .ok { r with d := v }
  | .e => .ok { r with e := v }
  | .h => .ok { r with h := v }
  | .l => .ok { r with l := v }
  | s => .error (.notByte s)

/-- The word register or pair that a selector names. -/
def word (r : Registers) : Selector → Except WidthError UInt16
  | .af => .ok r.af
  | .bc => .ok r.bc
  | .de => .ok r.de
  | .hl => .ok r.hl
  | .sp => .ok r.sp
  | .pc => .ok r.pc
  | s => .error (.notWord s)

/-- Set the word register or pair that a selector names. -/
def setWord (r : Registers) (s : Selector) (w : UInt16) : Except WidthError Registers :=
  match s with
  | .af => .ok (r.setAf w)
  | .bc => .ok (r.setBc w)
  | .de => .ok (r.setDe w)
  | .hl => .ok (r.setHl w)
  | .sp => .ok { r with sp := w }
  | .pc => .ok { r with pc := w }
  | s => .error (.notWord s)

@[simp] theorem bc_setBc (r : Registers) (w : UInt16) : (r.setBc w).bc = w := by
  simp [bc, setBc]

@[simp] theorem de_setDe (r : Registers) (w : UInt16) : (r.setDe w).de = w := by
  simp [de, setDe]

@[simp] theorem hl_setHl (r : Registers) (w : UInt16) : (r.setHl w).hl = w := by
  simp [hl, setHl]

end Registers

end DotMatrix
