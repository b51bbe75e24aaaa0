import DotMatrix.Journal
import DotMatrix.Word

/-!
# Buses

A processor reaches memory through a bus: sixteen address lines, a byte at a time. A read may
change the bus, so it returns the bus along with the byte.

* `Bus` is the class of buses. `Bus.readNotes` and `Bus.writeNotes` say which diagnostics an access
  gives rise to; they do not take part in the access.
* `FlatMemory` is 64 KiB of memory with nothing else on the bus.
* `Traced` adds to a bus the list of all accesses made so far.
-/

namespace DotMatrix

/-- Something that a processor can read bytes from and write bytes to. -/
class Bus (σ : Type) where
  read : σ → UInt16 → UInt8 × σ
  write : σ → UInt16 → UInt8 → σ
  /-- The diagnostics of a read. -/
  readNotes : σ → UInt16 → List Entry := fun _ _ => []
  /-- The diagnostics of a write. -/
  writeNotes : σ → UInt16 → UInt8 → List Entry := fun _ _ _ => []

/-- 64 KiB of memory. -/
structure FlatMemory where
  cells : Vector UInt8 0x10000
  deriving DecidableEq

namespace FlatMemory

/-- Memory filled with one byte. -/
def filled (v : UInt8) : FlatMemory := ⟨Vector.replicate 0x10000 v⟩

/-- The byte at an address. -/
def get (m : FlatMemory) (a : UInt16) : UInt8 := m.cells.get ⟨a.toNat, a.toNat_lt⟩

/-- Memory with one byte replaced. -/
def set (m : FlatMemory) (a : UInt16) (v : UInt8) : FlatMemory :=
  ⟨m.cells.set a.toNat v a.toNat_lt⟩

theorem get_eq_getElem (m : FlatMemory) (a : UInt16) (h : a.toNat < 0x10000) :
    m.get a = m.cells[a.toNat] := rfl

@[simp] theorem get_filled (v : UInt8) (a : UInt16) : (filled v).get a = v := by
  rw [get_eq_getElem _ _ a.toNat_lt]
  exact Vector.getElem_replicate ..

theorem get_set (m : FlatMemory) (a b : UInt16) (v : UInt8) :
    (m.set a v).get b = if a = b then v else m.get b := by
  rw [get_eq_getElem _ _ b.toNat_lt, get_eq_getElem _ _ b.toNat_lt]
  simp only [set, Vector.getElem_set, UInt16.toNat_inj]

@[simp] theorem get_set_self (m : FlatMemory) (a : UInt16) (v : UInt8) :
    (m.set a v).get a = v := by
  simp [get_set]

theorem get_set_of_ne (m : FlatMemory) {a b : UInt16} (h : a ≠ b) (v : UInt8) :
    (m.set a v).get b = m.get b := by
  simp [get_set, h]

instance : Bus FlatMemory where
  read m a := (m.get a, m)
  write m a v := m.set a v

end FlatMemory

/-- One access to a bus, with the byte that was read or written. -/
inductive Access
  | read (a : UInt16) (v : UInt8)
  | write (a : UInt16) (v : UInt8)
  deriving DecidableEq, Repr

/-- A bus and the accesses made to it, newest first. -/
structure Traced (σ : Type) where
  bus : σ
  accesses : List Access := []

namespace Traced

variable {σ : Type}

/-- The accesses in the order they were made. -/
def history (t : Traced σ) : List Access := t.accesses.reverse

/-- The same bus with an empty history. -/
def cleared (t : Traced σ) : Traced σ := { t with accesses := [] }

instance [Bus σ] : Bus (Traced σ) where
  read t a :=
    let (v, bus) := Bus.read t.bus a
    (v, ⟨bus, .read a v :: t.accesses⟩)
  write t a v := ⟨Bus.write t.bus a v, .write a v :: t.accesses⟩
  readNotes t a := Bus.readNotes t.bus a
  writeNotes t a v := Bus.writeNotes t.bus a v

end Traced

end DotMatrix
