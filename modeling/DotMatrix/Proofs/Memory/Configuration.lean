import DotMatrix.Memory.Board
import DotMatrix.Proofs.Memory.Place
import DotMatrix.Proofs.Processor.Trace

/-!
# What accesses leave alone

A processor changes a memory map by writes only, and a write changes a byte of a bank that is
neither ROM nor locked. Everything else of the memory map stays: the ROM, the numbers of banks, the
selections, the locks, and what kind of RAM the cartridge has.

* `CartridgeRam.shape` is cartridge RAM without its bytes.
* `m.SameSetup m'` says that `m'` has the setup of `m`. A write keeps it (`sameSetup_write`), and so
  does every trace on a board (`Board.sameSetup_of_performs`).
* `SameSetup.read_eq` says that the addresses of the ROM then read the same.
-/

namespace DotMatrix

/-- Cartridge RAM without the bytes it holds: its kind, its save file and its number of banks. -/
def CartridgeRam.shape : CartridgeRam → CartridgeRam
  | volatile _ banks => volatile .empty banks
  | ram => ram

theorem CartridgeRam.shape_put (ram : CartridgeRam) (d : Disk) (i o : Nat) (v : UInt8) :
    (ram.put d i o v).1.shape = ram.shape := by
  cases ram <;> rfl

/-! ### The addresses of the ROM -/

theorem Place.of_fixedRom {a : UInt16} (h : a.toNat < 0x4000) :
    Place.of a = .banked .fixedRom a.toNat := by
  have hu : unecho a = a.toNat := if_neg (by omega)
  rw [Place.of_eq, hu, Place.ofNat, if_pos h]

theorem Place.of_switchRom {a : UInt16} (h : 0x4000 ≤ a.toNat) (h' : a.toNat < 0x8000) :
    Place.of a = .banked .switchRom (a.toNat - 0x4000) := by
  have hu : unecho a = a.toNat := if_neg (by omega)
  rw [Place.of_eq, hu, Place.ofNat, if_neg (by omega), if_pos h']

/-- An address below 0x8000 leads to ROM. -/
theorem Place.exists_rom {a : UInt16} (h : a.toNat < 0x8000) :
    ∃ area o, Place.of a = .banked area o ∧ area.isRom = true := by
  rcases Nat.lt_or_ge a.toNat 0x4000 with hl | hl
  · exact ⟨_, _, of_fixedRom hl, rfl⟩
  · exact ⟨_, _, of_switchRom hl h, rfl⟩

namespace MemoryMap

theorem cell_of_banked {a : UInt16} {area : Area} {o : Nat} (hp : Place.of a = .banked area o)
    (m : MemoryMap) :
    m.cell? a =
      if (m.window area).selected < (m.window area).banks.size then
        .ok (.bank area (m.window area).selected o)
      else
        .error (.failed (.noSuchBank area.label (m.window area).selected
          (m.window area).banks.size)) := by
  simp only [cell?, hp]

/-- The byte that a selected bank answers with, if it is there and not locked. -/
theorem read_of_banked {m : MemoryMap} {a : UInt16} {area : Area} {o : Nat} {v : UInt8}
    (hp : Place.of a = .banked area o)
    (hl : (m.window area).isLocked (m.window area).selected = false)
    (hv : (m.window area).get? (m.window area).selected o = some v) (d : Disk) :
    m.read d a = v := by
  have hs : (m.window area).selected < (m.window area).banks.size := by
    refine Nat.lt_of_not_le fun hn => ?_
    rw [Window.get?, Array.getElem?_eq_none hn] at hv
    cases hv
  have hg : m.get d (.bank area (m.window area).selected o) = .ok v := by
    simp only [get, hv]
  rw [read, cell_of_banked hp, if_pos hs]
  dsimp only
  rw [isLocked, hl, hg]
  rfl

/-- What an address of an area reads depends on the window of the area alone. -/
theorem read_congr {m m' : MemoryMap} {a : UInt16} {area : Area} {o : Nat}
    (hp : Place.of a = .banked area o) (hw : m'.window area = m.window area) (d d' : Disk) :
    m'.read d' a = m.read d a := by
  have hl (i : Nat) : m'.isLocked (.bank area i o) = m.isLocked (.bank area i o) := by
    rw [isLocked, isLocked, hw]
  have hg (i : Nat) : m'.get d' (.bank area i o) = m.get d (.bank area i o) := by
    rw [get, get, hw]
  rw [read, read, cell_of_banked hp, cell_of_banked hp, hw]
  by_cases hs : (m.window area).selected < (m.window area).banks.size
  · rw [if_pos hs]
    dsimp only
    rw [hl, hg]
  · rw [if_neg hs]

/-! ### The setup of a memory map -/

/-- A memory map has the ROM, the numbers of banks, the selections, the locks and the kind of RAM of
another one. -/
structure SameSetup (m m' : MemoryMap) : Prop where
  rom : ∀ area : Area, area.isRom = true → m'.window area = m.window area
  count : ∀ area, (m'.window area).banks.size = (m.window area).banks.size
  selected : ∀ area, (m'.window area).selected = (m.window area).selected
  locked : ∀ area i, (m'.window area).isLocked i = (m.window area).isLocked i
  ramIndex : m'.ramIndex = m.ramIndex
  shape : m'.ram.shape = m.ram.shape

namespace SameSetup

variable {m m' m'' : MemoryMap}

theorem refl (m : MemoryMap) : m.SameSetup m where
  rom _ _ := rfl
  count _ := rfl
  selected _ := rfl
  locked _ _ := rfl
  ramIndex := rfl
  shape := rfl

theorem trans (h : m.SameSetup m') (h' : m'.SameSetup m'') : m.SameSetup m'' where
  rom area ha := (h'.rom area ha).trans (h.rom area ha)
  count area := (h'.count area).trans (h.count area)
  selected area := (h'.selected area).trans (h.selected area)
  locked area i := (h'.locked area i).trans (h.locked area i)
  ramIndex := h'.ramIndex.trans h.ramIndex
  shape := h'.shape.trans h.shape

/-- The addresses of the ROM read the same. -/
theorem read_eq (h : m.SameSetup m') {a : UInt16} (ha : a.toNat < 0x8000) (d d' : Disk) :
    m'.read d' a = m.read d a := by
  obtain ⟨area, o, hp, hr⟩ := Place.exists_rom ha
  exact read_congr hp (h.rom area hr) d d'

end SameSetup

/-- Changing a byte of a bank that is not ROM keeps the setup. -/
theorem sameSetup_setByte (m : MemoryMap) {area : Area} (ha : area.isRom = false) (i o : Nat)
    (v : UInt8) : m.SameSetup (m.mapWindow area (·.set i o v)) where
  rom area' hr := by
    have hn : area ≠ area' := by
      rintro rfl
      rw [ha] at hr
      cases hr
    rw [window_mapWindow, if_neg hn]
  count area' := by
    rw [window_mapWindow]
    split
    · exact Window.size_banks_set ..
    · rfl
  selected area' := by
    rw [window_mapWindow]
    split <;> rfl
  locked area' j := by
    rw [window_mapWindow]
    split
    · exact Window.isLocked_set ..
    · rfl
  ramIndex := ramIndex_mapWindow ..
  shape := by rw [ram_mapWindow]

theorem sameSetup_put (m : MemoryMap) (d : Disk) (c : Cell) (v : UInt8) :
    m.SameSetup (m.put d c v).1 := by
  cases c with
  | bank area i o =>
    simp only [put]
    split
    · exact .refl m
    · next h =>
      have ha : area.isRom = false := by
        cases hr : area.isRom
        · rfl
        · exact absurd (by rw [hr, Bool.true_or]) h
      exact sameSetup_setByte m ha i o v
  | ram i o =>
    exact
      { SameSetup.refl m with
        shape := CartridgeRam.shape_put m.ram d i o v }

/-- A write keeps the setup, wherever it goes. -/
theorem sameSetup_write (m : MemoryMap) (d : Disk) (a : UInt16) (v : UInt8) :
    m.SameSetup (m.write d a v).1 := by
  unfold write
  split
  · exact .refl m
  · exact sameSetup_put m d _ v

end MemoryMap

/-- Accesses to a board keep the setup of its memory map. -/
theorem Board.sameSetup_of_performs {b b' : Board} {l : List Access} (h : Performs b l b') :
    b.map.SameSetup b'.map := by
  induction h with
  | nil b => exact .refl b.map
  | read a _ ih => exact ih
  | write a v _ ih => exact (MemoryMap.sameSetup_write _ _ a v).trans ih

end DotMatrix
