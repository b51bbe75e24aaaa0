import DotMatrix.Bytes

/-!
# Banks and windows

A bank is a block of bytes and a lock. A window shows one of several banks, the selected one; a
selection may be out of range, and then the window shows nothing.
-/

namespace DotMatrix

/-- A block of bytes and its lock. -/
structure Bank where
  data : ByteArray
  locked : Bool := false
  deriving DecidableEq

namespace Bank

/-- An unlocked bank of zeros. -/
def zeros (n : Nat) : Bank := { data := Bytes.zeros n }

/-- The number of bytes. -/
def size (b : Bank) : Nat := b.data.size

/-- The byte at an offset, if there is one, whatever the lock. -/
def get? (b : Bank) (o : Nat) : Option UInt8 := Bytes.get? b.data o

/-- Replace the byte at an offset, if there is one, whatever the lock. -/
def set (b : Bank) (o : Nat) (v : UInt8) : Bank := { b with data := Bytes.set b.data o v }

@[simp] theorem size_zeros (n : Nat) : (zeros n).size = n := Bytes.size_zeros n

@[simp] theorem size_set (b : Bank) (o : Nat) (v : UInt8) : (b.set o v).size = b.size :=
  Bytes.size_set ..

@[simp] theorem locked_set (b : Bank) (o : Nat) (v : UInt8) : (b.set o v).locked = b.locked := rfl

theorem get?_set (b : Bank) (o p : Nat) (v : UInt8) :
    (b.set o v).get? p = if o = p ∧ p < b.size then some v else b.get? p :=
  Bytes.get?_set ..

end Bank

/-- Several banks, one of them selected. -/
structure Window where
  banks : Array Bank
  selected : Nat := 0
  deriving DecidableEq

namespace Window

/-- A window on `count` banks of `size` zeros. -/
def zeros (count size : Nat) : Window := ⟨Array.replicate count (Bank.zeros size), 0⟩

/-- The byte at an offset of a bank, if there is one. -/
def get? (w : Window) (index o : Nat) : Option UInt8 := do (← w.banks[index]?).get? o

/-- Replace the byte at an offset of a bank, if there is one. -/
def set (w : Window) (index o : Nat) (v : UInt8) : Window :=
  { w with banks := w.banks.modify index (·.set o v) }

/-- Whether a bank is locked. -/
def isLocked (w : Window) (index : Nat) : Bool :=
  match w.banks[index]? with
  | some b => b.locked
  | none => false

/-- Lock or unlock every bank. -/
def setLocked (w : Window) (locked : Bool) : Window :=
  { w with banks := w.banks.map ({ · with locked := locked }) }

/-- Select a bank, in range or not. -/
def select (w : Window) (index : Nat) : Window := { w with selected := index }

theorem get?_of_bank {w : Window} {i : Nat} {b : Bank} (h : w.banks[i]? = some b) (o : Nat) :
    w.get? i o = b.get? o := by
  rw [get?, h]
  rfl

theorem get?_zeros (count size i o : Nat) :
    (zeros count size).get? i o = if i < count ∧ o < size then some 0 else none := by
  by_cases hi : i < count
  · have hb : (zeros count size).banks[i]? = some (Bank.zeros size) := by
      simp [zeros, hi]
    rw [get?_of_bank hb]
    show Bytes.get? (Bytes.zeros size) o = _
    rw [Bytes.get?_zeros]
    simp [hi]
  · simp [get?, zeros, hi]

@[simp] theorem isLocked_zeros (count size i : Nat) : (zeros count size).isLocked i = false := by
  by_cases hi : i < count <;> simp [isLocked, zeros, hi, Bank.zeros]

@[simp] theorem selected_set (w : Window) (i o : Nat) (v : UInt8) :
    (w.set i o v).selected = w.selected := rfl

@[simp] theorem size_banks_set (w : Window) (i o : Nat) (v : UInt8) :
    (w.set i o v).banks.size = w.banks.size := by
  simp [set]

@[simp] theorem isLocked_set (w : Window) (i j o : Nat) (v : UInt8) :
    (w.set i o v).isLocked j = w.isLocked j := by
  simp only [isLocked, set, Array.getElem?_modify]
  by_cases h : i = j
  · subst h
    cases w.banks[i]? <;> simp
  · simp [h]

/-- A write to a byte that is there is read back, and no other byte changes. -/
theorem get?_set (w : Window) (i j o p : Nat) (v : UInt8) :
    (w.set i o v).get? j p =
      if i = j ∧ o = p ∧ (w.get? j p).isSome then some v else w.get? j p := by
  simp only [get?, set, Array.getElem?_modify]
  by_cases h : i = j
  · subst h
    simp only [if_true, true_and]
    cases w.banks[i]? with
    | none => simp
    | some b =>
      have hs : (b.get? p).isSome = true ↔ p < b.size := by
        rw [Option.isSome_iff_ne_none, Ne, Bank.get?, Bytes.get?_eq_none_iff, Nat.not_le]
        rfl
      simp [Bank.get?_set, hs]
  · simp [h]

@[simp] theorem size_banks_setLocked (w : Window) (l : Bool) :
    (w.setLocked l).banks.size = w.banks.size := by
  simp [setLocked]

/-- A lock covers all banks that are there. -/
theorem isLocked_setLocked (w : Window) (l : Bool) (i : Nat) :
    (w.setLocked l).isLocked i = (decide (i < w.banks.size) && l) := by
  by_cases h : i < w.banks.size <;> simp [isLocked, setLocked, h]

@[simp] theorem get?_setLocked (w : Window) (l : Bool) (i o : Nat) :
    (w.setLocked l).get? i o = w.get? i o := by
  simp only [get?, setLocked, Array.getElem?_map]
  cases w.banks[i]? <;> rfl

end Window

end DotMatrix
