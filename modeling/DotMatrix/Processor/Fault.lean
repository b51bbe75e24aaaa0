import DotMatrix.Processor.Operation

/-!
# Faults

A fault is a request that no instruction should make: a register at the wrong width, a store to an
immediate, a bit number outside a byte, a number that leaves its width. Execution checks each such
request and reports the fault instead of a result.
-/

namespace DotMatrix

/-- A request that no instruction should make. -/
inductive Fault
  /-- A register used at the wrong width. -/
  | width (e : WidthError)
  /-- A store to an immediate operand. -/
  | storeToImmediate
  /-- An operand that has no address. -/
  | notAddressable (o : Operand)
  /-- An operand that cannot be modified in place. -/
  | notModifiable (o : Operand)
  /-- The code CB met where an operation was expected. -/
  | strayBitPage
  /-- A restart vector other than a multiple of 8 below 0x40. -/
  | badVector (v : UInt16)
  /-- A word load into something else than BC, DE, HL or SP. -/
  | notLoadable (s : Selector)
  /-- A bit number above 7. -/
  | badBit (n : Nat)
  /-- A cycle counter that leaves 32 bits. -/
  | counterOverflow
  /-- A number that leaves its width. -/
  | overflow (bits : Nat)
  deriving DecidableEq, Repr

namespace Fault

/-- The wording of a fault. -/
def message : Fault → String
  | width e => e.message
  | storeToImmediate => "cannot store to an immediate operand"
  | notAddressable o => o.selector.label ++ " has no address"
  | notModifiable o => o.selector.label ++ " cannot be modified in place"
  | strayBitPage => "code CB where an operation was expected"
  | badVector v => toString v ++ " is not a restart vector"
  | notLoadable s => s.label ++ " cannot be loaded with a word"
  | badBit n => "a byte has no bit " ++ toString n
  | counterOverflow => "the cycle counter left 32 bits"
  | overflow bits => "a number left " ++ toString bits ++ " bits"

/-- A result of the register file as a result of execution. -/
def ofWidth {α : Type} : Except WidthError α → Except Fault α
  | .ok x => .ok x
  | .error e => .error (.width e)

@[simp] theorem ofWidth_ok {α : Type} (x : α) : ofWidth (.ok x) = .ok x := rfl

@[simp] theorem ofWidth_error {α : Type} (e : WidthError) :
    ofWidth (.error e : Except WidthError α) = .error (.width e) := rfl

end Fault

end DotMatrix
