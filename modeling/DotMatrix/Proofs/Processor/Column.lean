import DotMatrix.Processor.Arithmetic
import Mathlib.Data.Nat.Digits.Defs
import Mathlib.Tactic.Ring

/-!
# Arithmetic column by column

A number of several bytes is combined with another one column by column, lowest bytes first, and the
carry flag takes the carry of one column to the next.

* A `Radix` says how bytes are read as digits; `R.value bs` is the number that `bs` stands for.
* `chain` is the procedure, for any operation on the two bytes of a column.
* `R.Adds step` says that an operation is an adder of single digits; `Adds.chain` that a chain of
  them adds numbers. `R.Subtracts` and `Subtracts.chain` are the counterparts.

A difference is a sum read backwards: what is subtracted and the difference add up to the number
that it is subtracted from. So both laws are cases of one about `Columns`, `value_of_columns`.
-/

namespace DotMatrix

/-! ### Columns -/

/-- The law of a column: its two bytes and the carry into it, the byte that results and the carry
out of it. -/
abbrev ColumnLaw := UInt8 → UInt8 → Bool → UInt8 → Bool → Prop

/-- A law holds of each column of two lists, and the carry out of one goes into the next. -/
inductive Columns (L : ColumnLaw) : List UInt8 → List UInt8 → Bool → List UInt8 → Bool → Prop
  | nil (c : Bool) : Columns L [] [] c [] c
  | cons {x y r : UInt8} {c d C : Bool} {xs ys rs : List UInt8} (column : L x y c r d)
      (rest : Columns L xs ys d rs C) : Columns L (x :: xs) (y :: ys) c (r :: rs) C

namespace Columns

variable {L : ColumnLaw} {xs ys rs : List UInt8} {c C : Bool}

theorem length_eq (h : Columns L xs ys c rs C) : rs.length = xs.length := by
  induction h with
  | nil => rfl
  | cons _ _ ih => rw [List.length_cons, ih, List.length_cons]

theorem forall_result {P : UInt8 → Prop} (hL : ∀ {x y c r d}, L x y c r d → P r)
    (h : Columns L xs ys c rs C) : ∀ r ∈ rs, P r := by
  induction h with
  | nil => nofun
  | cons column _ ih => exact List.forall_mem_cons.2 ⟨hL column, ih⟩

/-- The first operand and the result change places. -/
theorem swap {L' : ColumnLaw} (hL : ∀ {x y c r d}, L x y c r d → L' r y c x d)
    (h : Columns L xs ys c rs C) : Columns L' rs ys c xs C := by
  induction h with
  | nil => exact .nil _
  | cons column _ ih => exact .cons (hL column) ih

end Columns

/-- An operation on the two bytes of a column and on the flags. -/
abbrev ColumnStep := UInt8 → UInt8 → Flags → UInt8 × Flags

/-- Combine two lists of bytes column by column, lowest bytes first. The flags after one column are
those before the next; `first` is for the first column, `step` for the others. -/
def chain (first step : ColumnStep) (fl : Flags) : List UInt8 → List UInt8 → List UInt8 × Flags
  | x :: xs, y :: ys =>
    let (r, fl) := first x y fl
    let (rs, fl) := chain step step fl xs ys
    (r :: rs, fl)
  | _, _ => ([], fl)

/-- What an operation does to each column holds of the columns of a chain. -/
theorem columns_chain {L : ColumnLaw} {P : UInt8 → Prop} {step : ColumnStep}
    (hs : ∀ x y fl, P x → P y → L x y fl.carry (step x y fl).1 (step x y fl).2.carry)
    {xs ys : List UInt8} (hl : xs.length = ys.length) (hx : ∀ x ∈ xs, P x) (hy : ∀ y ∈ ys, P y)
    (fl : Flags) :
    Columns L xs ys fl.carry (chain step step fl xs ys).1 (chain step step fl xs ys).2.carry := by
  induction xs generalizing ys fl with
  | nil =>
    obtain rfl : ys = [] := List.length_eq_zero_iff.1 hl.symm
    exact .nil _
  | cons x xs ih =>
    cases ys with
    | nil => cases hl
    | cons y ys =>
      obtain ⟨hx, hxs⟩ := List.forall_mem_cons.1 hx
      obtain ⟨hy, hys⟩ := List.forall_mem_cons.1 hy
      exact .cons (hs x y fl hx hy) (ih (Nat.succ.inj hl) hxs hys _)

/-- The first column may be worked with the operation of the others, if the flags make up for it. -/
theorem chain_first {first step : ColumnStep} {fl fl' : Flags}
    (h : ∀ x y, first x y fl = step x y fl') {xs ys : List UInt8} (hx : xs ≠ [])
    (hl : xs.length = ys.length) : chain first step fl xs ys = chain step step fl' xs ys := by
  obtain ⟨x, xs, rfl⟩ := List.exists_cons_of_ne_nil hx
  cases ys with
  | nil => cases hl
  | cons y ys => rw [chain, chain, h]

/-! ### Bytes as digits -/

/-- A way to read bytes as digits. -/
structure Radix where
  base : Nat
  /-- The bytes that are digits. -/
  IsDigit : UInt8 → Prop
  /-- The value of a digit. -/
  digit : UInt8 → Nat

namespace Radix

variable (R : Radix)

/-- The number that bytes stand for, lowest digit first. -/
def value (bs : List UInt8) : Nat := Nat.ofDigits R.base (bs.map R.digit)

theorem value_cons (b : UInt8) (bs : List UInt8) :
    R.value (b :: bs) = R.digit b + R.base * R.value bs :=
  Nat.ofDigits_cons ..

/-- Bytes and a final carry that are the sum of two numbers and a carry. -/
structure IsSum (xs ys : List UInt8) (c : Bool) (rs : List UInt8) (C : Bool) : Prop where
  length : rs.length = xs.length
  digits : ∀ r ∈ rs, R.IsDigit r
  value : R.value rs + R.base ^ xs.length * C.toNat = R.value xs + R.value ys + c.toNat

/-- Bytes and a final borrow that are the difference of two numbers and a borrow. -/
structure IsDifference (xs ys : List UInt8) (c : Bool) (rs : List UInt8) (C : Bool) : Prop where
  length : rs.length = xs.length
  digits : ∀ r ∈ rs, R.IsDigit r
  value : (R.value rs : Int) = R.value xs - R.value ys - c.toNat + R.base ^ xs.length * C.toNat

/-- A column of a sum. -/
structure AddsColumn (x y : UInt8) (c : Bool) (r : UInt8) (d : Bool) : Prop where
  isDigit : R.IsDigit r
  value : R.digit x + R.digit y + c.toNat = R.digit r + R.base * d.toNat

/-- A column of a difference. -/
structure SubtractsColumn (x y : UInt8) (c : Bool) (r : UInt8) (d : Bool) : Prop where
  isDigit : R.IsDigit r
  value : R.digit r + R.digit y + c.toNat = R.digit x + R.base * d.toNat

/-- An operation that adds two digits and the carry flag. -/
def Adds (step : ColumnStep) : Prop :=
  ∀ x y fl, R.IsDigit x → R.IsDigit y →
    R.AddsColumn x y fl.carry (step x y fl).1 (step x y fl).2.carry

/-- An operation that subtracts a digit and the carry flag from another digit. -/
def Subtracts (step : ColumnStep) : Prop :=
  ∀ x y fl, R.IsDigit x → R.IsDigit y →
    R.SubtractsColumn x y fl.carry (step x y fl).1 (step x y fl).2.carry

variable {R} {L : ColumnLaw} {step : ColumnStep} {xs ys rs : List UInt8} {c C : Bool}

/-- If the digits of each column add up, the numbers do, but for the carry out of the last. -/
theorem value_of_columns
    (hL : ∀ {x y c r d}, L x y c r d →
      R.digit x + R.digit y + c.toNat = R.digit r + R.base * d.toNat)
    (h : Columns L xs ys c rs C) :
    R.value xs + R.value ys + c.toNat = R.value rs + R.base ^ rs.length * C.toNat := by
  induction h with
  | nil c => simp [Radix.value]
  | @cons x y r c d C xs ys rs column _ ih =>
    simp only [value_cons, List.length_cons]
    calc R.digit x + R.base * R.value xs + (R.digit y + R.base * R.value ys) + c.toNat
        = R.digit x + R.digit y + c.toNat + R.base * (R.value xs + R.value ys) := by ring
      _ = R.digit r + R.base * (R.value xs + R.value ys + d.toNat) := by
        rw [hL column]
        ring
      _ = R.digit r + R.base * R.value rs + R.base ^ (rs.length + 1) * C.toNat := by
        rw [ih]
        ring

/-- A chain of adders adds. -/
theorem Adds.chain (h : R.Adds step) (hl : xs.length = ys.length) (hx : ∀ x ∈ xs, R.IsDigit x)
    (hy : ∀ y ∈ ys, R.IsDigit y) (fl : Flags) :
    R.IsSum xs ys fl.carry (chain step step fl xs ys).1 (chain step step fl xs ys).2.carry := by
  have hc := columns_chain h hl hx hy fl
  refine ⟨hc.length_eq, hc.forall_result AddsColumn.isDigit, ?_⟩
  have hv := value_of_columns AddsColumn.value hc
  rw [hv, hc.length_eq]

/-- A chain of subtracters subtracts. -/
theorem Subtracts.chain (h : R.Subtracts step) (hl : xs.length = ys.length)
    (hx : ∀ x ∈ xs, R.IsDigit x) (hy : ∀ y ∈ ys, R.IsDigit y) (fl : Flags) :
    R.IsDifference xs ys fl.carry (chain step step fl xs ys).1
      (chain step step fl xs ys).2.carry := by
  have hc := columns_chain h hl hx hy fl
  refine ⟨hc.length_eq, hc.forall_result SubtractsColumn.isDigit, ?_⟩
  -- Read backwards, the columns are those of a sum.
  have hv := value_of_columns id (hc.swap SubtractsColumn.value)
  have hz := congrArg (Nat.cast : Nat → Int) hv
  push_cast at hz
  omega

end Radix

end DotMatrix
