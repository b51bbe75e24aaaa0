import DotMatrix.Proofs.Memory.Place
import DotMatrix.Proofs.Memory.WellFormed

/-!
# The memory map as a flat store

Seen from outside, a memory map is a store of cells in which the last write wins, and a setup that
says which cells the addresses reach.

* `Setup` is what selections, locks and loads have left: the banks there are, the selected ones and
  the locked areas. `Setup.cell?` is the cell that an address reaches and `Setup.target?` the cell
  that a write to it changes.
* `Setup.stored?` is the byte that a change stores in a cell, and `Setup.content` the byte that a
  history of changes leaves there: the latest one stored.
* `Agrees` ties a board to a setup and a store. Each change keeps it (`Agrees.apply`), so every
  history does (`agrees_after`), and the board then reads and writes as the store says
  (`flat_store`).
-/

namespace DotMatrix

/-- Whether a change leaves cartridge RAM in memory, and not in a save file. -/
def Change.isVolatile : Change → Bool
  | attachRam banks battery _ => !battery || banks == 0
  | _ => true

/-- Whether a cell refuses writes for good. -/
def Cell.isRom : Cell → Bool
  | bank area _ _ => area.isRom
  | ram .. => false

/-- The banks there are, the selected ones and the locked areas. -/
structure Setup where
  banks : Area → Nat := Area.bankCount
  selected : Area → Nat := fun _ => 0
  locked : Area → Bool := fun _ => false
  ramBanks : Nat := 0
  ramSelected : Nat := 0

namespace Setup

/-- Select a bank, whether there is one or not. -/
def select (s : Setup) (area : Area) (i : Nat) : Setup :=
  { s with selected := fun b => if area = b then i else s.selected b }

/-- Lock or unlock an area. -/
def lock (s : Setup) (area : Area) (l : Bool) : Setup :=
  { s with locked := fun b => if area = b then l else s.locked b }

/-- The setup that a change leaves. -/
def apply (s : Setup) : Change → Setup
  | .selectRom i => s.select .switchRom i
  | .selectVideo i => s.select .videoRam i
  | .selectWork i => s.select .switchWork i
  | .selectRam i => { s with ramSelected := i }
  | .lockVideo l => s.lock .videoRam l
  | .lockObjects l => s.lock .objects l
  | .loadSwitchRom _ n => { s with banks := fun b => if .switchRom = b then n else s.banks b }
  | .attachRam n _ _ => { s with ramBanks := n, ramSelected := 0 }
  | .write .. | .loadFixedRom .. | .flush => s

/-- The setup that a history of changes, newest first, leaves. -/
def after : List Change → Setup
  | [] => {}
  | op :: older => (after older).apply op

/-- The cell that an address reaches, unless nothing is there or the selected bank is missing. -/
def cell? (s : Setup) (a : UInt16) : Option Cell :=
  match Place.ofNat (unecho a) with
  | .unusable => none
  | .banked area o =>
    if s.selected area < s.banks area then some (.bank area (s.selected area) o) else none
  | .cartridge o => if s.ramSelected < s.ramBanks then some (.ram s.ramSelected o) else none

/-- Whether a cell is in a locked area. -/
def isLocked (s : Setup) : Cell → Bool
  | .bank area _ _ => s.locked area
  | .ram .. => false

/-- The cell that a write to an address changes, if the write is accepted. -/
def target? (s : Setup) (a : UInt16) : Option Cell :=
  (s.cell? a).filter fun c => !c.isRom && !s.isLocked c

/-- The byte that a change stores in a cell, if it stores one. -/
def stored? (s : Setup) : Change → Cell → Option UInt8
  | .write a v, c => if s.target? a = some c then some v else none
  | .loadFixedRom data _, .bank .fixedRom _ o => Bytes.get? data o
  | .loadSwitchRom data _, .bank .switchRom i o =>
    some ((Bytes.get? data (i * 0x4000 + o)).getD 0)
  | .attachRam .., .ram .. => some 0
  | _, _ => none

/-- The byte that a history of changes, newest first, leaves in a cell: the one that was stored
last, and zero if none was. -/
def content : List Change → Cell → UInt8
  | [], _ => 0
  | op :: older, c => ((after older).stored? op c).getD (content older c)

end Setup

/-! ### Agreement -/

/-- The window of an area is set up as `s` says and holds the bytes of `store`. -/
structure Window.Shows (w : Window) (s : Setup) (store : Cell → UInt8) (area : Area) : Prop where
  banks : w.banks.size = s.banks area
  selected : w.selected = s.selected area
  locked : ∀ i, i < s.banks area → w.isLocked i = s.locked area
  byte : ∀ i o, i < s.banks area → o < area.bankSize → w.get? i o = some (store (.bank area i o))

/-- The cartridge RAM is in memory and holds the bytes of `store`. -/
structure CartridgeRam.Shows (ram : CartridgeRam) (s : Setup) (store : Cell → UInt8) :
    Prop where
  inMemory : ram.isPersistent = false
  banks : ram.bankCount = s.ramBanks
  byte : ∀ d i o, i < s.ramBanks → o < 0x2000 → ram.get d i o = .ok (store (.ram i o))

/-- The memory map is set up as `s` says and holds the bytes of `store`. -/
structure Agrees (s : Setup) (store : Cell → UInt8) (m : MemoryMap) : Prop where
  window : ∀ area, (m.window area).Shows s store area
  ram : m.ram.Shows s store
  ramSelected : m.ramIndex = s.ramSelected

/-- A cell that is there under a setup. -/
def Setup.Has (s : Setup) : Cell → Prop
  | .bank area i o => i < s.banks area ∧ o < area.bankSize
  | .ram i o => i < s.ramBanks ∧ o < 0x2000

/-- An echo address reaches the cell of the work RAM address below it. -/
theorem Setup.cell?_echo (s : Setup) {a : UInt16} (h₁ : 0xE000 ≤ a.toNat) (h₂ : a.toNat < 0xFE00) :
    s.cell? a = s.cell? (a - 0x2000) := by
  rw [cell?, cell?, unecho_sub h₁ h₂]

/-- An unusable address reaches no cell. -/
theorem Setup.cell?_unusable (s : Setup) {a : UInt16} (h₁ : 0xFEA0 ≤ a.toNat)
    (h₂ : a.toNat < 0xFF00) : s.cell? a = none := by
  have hu : unecho a = a.toNat := if_neg (by omega)
  have hp : Place.ofNat a.toNat = .unusable := by
    rw [Place.ofNat, if_neg (by omega), if_neg (by omega), if_neg (by omega), if_neg (by omega),
      if_neg (by omega), if_neg (by omega), if_neg (by omega), if_pos h₂]
  rw [cell?, hu, hp]

theorem Setup.has_of_cell? {s : Setup} {a : UInt16} {c : Cell} (h : s.cell? a = some c) :
    s.Has c := by
  have ho := Place.inBank_of a
  rw [Place.of_eq] at ho
  unfold cell? at h
  split at h
  · cases h
  · next area o hp =>
    rw [hp] at ho
    simp only [Option.ite_none_right_eq_some, Option.some.injEq] at h
    obtain ⟨hi, rfl⟩ := h
    exact ⟨hi, ho⟩
  · next o hp =>
    rw [hp] at ho
    simp only [Option.ite_none_right_eq_some, Option.some.injEq] at h
    obtain ⟨hi, rfl⟩ := h
    exact ⟨hi, ho⟩

theorem Setup.target?_eq_some {s : Setup} {a : UInt16} {c : Cell} :
    s.target? a = some c ↔ s.cell? a = some c ∧ c.isRom = false ∧ s.isLocked c = false := by
  simp [target?, Option.filter_eq_some_iff]

namespace Agrees

variable {s : Setup} {store : Cell → UInt8} {m : MemoryMap}

theorem cell?_eq (h : Agrees s store m) (a : UInt16) : (m.cell? a).toOption = s.cell? a := by
  have hw (area : Area) := (h.window area).banks
  have hs (area : Area) := (h.window area).selected
  simp only [MemoryMap.cell?, Setup.cell?, Place.of_eq, hw, hs, h.ram.banks, h.ramSelected]
  cases Place.ofNat (unecho a) with
  | unusable => rfl
  | banked area o => dsimp only; split <;> rfl
  | cartridge o => dsimp only; split <;> rfl

theorem isLocked_eq (h : Agrees s store m) {c : Cell} (hc : s.Has c) :
    m.isLocked c = s.isLocked c := by
  cases c with
  | bank area i o => exact (h.window area).locked i hc.1
  | ram i o => rfl

theorem get_eq (h : Agrees s store m) (d : Disk) {c : Cell} (hc : s.Has c) :
    m.get d c = .ok (store c) := by
  cases c with
  | bank area i o => simp only [MemoryMap.get, (h.window area).byte i o hc.1 hc.2]
  | ram i o => exact h.ram.byte d i o hc.1 hc.2

/-- A read answers from the store, or with an open bus. -/
theorem read_eq (h : Agrees s store m) (d : Disk) (a : UInt16) :
    m.read d a =
      match s.cell? a with
      | none => 0xFF
      | some c => if s.isLocked c then 0xFF else store c := by
  have hc := h.cell?_eq a
  unfold MemoryMap.read
  cases hm : m.cell? a with
  | error e =>
    rw [hm] at hc
    rw [← hc]
    rfl
  | ok c =>
    rw [hm] at hc
    have hh : s.Has c := Setup.has_of_cell? hc.symm
    rw [← hc]
    simp only [h.isLocked_eq hh, h.get_eq d hh]
    rfl

end Agrees

/-! ### Changes keep the agreement -/

namespace Window.Shows

variable {w : Window} {s s' : Setup} {store store' : Cell → UInt8} {area : Area}

theorem zeros (area : Area) :
    (Window.zeros area.bankCount area.bankSize).Shows {} (fun _ => 0) area where
  banks := Array.size_replicate
  selected := rfl
  locked i _ := Window.isLocked_zeros ..
  byte i o hi ho := by rw [Window.get?_zeros, if_pos ⟨hi, ho⟩]

theorem congr (h : w.Shows s store area) (hb : s'.banks area = s.banks area)
    (hs : s'.selected area = s.selected area) (hl : s'.locked area = s.locked area)
    (hc : ∀ i o, store' (.bank area i o) = store (.bank area i o)) : w.Shows s' store' area where
  banks := by rw [h.banks, hb]
  selected := by rw [h.selected, hs]
  locked i hi := by rw [h.locked i (hb ▸ hi), hl]
  byte i o hi ho := by rw [h.byte i o (hb ▸ hi) ho, hc]

end Window.Shows

namespace Agrees

variable {s s' : Setup} {store store' : Cell → UInt8} {m : MemoryMap}

/-- A change of one window and of its area in the setup and the store. -/
theorem mapWindow (h : Agrees s store m) (area : Area) (g : Window → Window)
    (hw : (g (m.window area)).Shows s' store' area)
    (hs : ∀ b, area ≠ b → s'.banks b = s.banks b ∧ s'.selected b = s.selected b ∧
      s'.locked b = s.locked b)
    (hr : s'.ramBanks = s.ramBanks ∧ s'.ramSelected = s.ramSelected)
    (hc : ∀ c, (∀ i o, c ≠ .bank area i o) → store' c = store c) :
    Agrees s' store' (m.mapWindow area g) where
  window b := by
    rw [MemoryMap.window_mapWindow]
    split
    · next e => exact e ▸ hw
    · next e =>
      obtain ⟨hb, hsel, hl⟩ := hs b e
      refine (h.window b).congr hb hsel hl fun i o => hc _ ?_
      rintro i' o' ⟨⟩
      exact e rfl
  ram := by
    rw [MemoryMap.ram_mapWindow]
    refine ⟨h.ram.inMemory, h.ram.banks.trans hr.1.symm, fun d i o hi ho => ?_⟩
    rw [h.ram.byte d i o (hr.1 ▸ hi) ho, hc (.ram i o) nofun]
  ramSelected := by
    rw [MemoryMap.ramIndex_mapWindow, h.ramSelected, hr.2]

theorem select (h : Agrees s store m) (area : Area) (i : Nat) :
    Agrees (s.select area i) store (m.select area i) := by
  have hw := h.window area
  exact h.mapWindow area (·.select i) ⟨hw.banks, (if_pos rfl).symm, hw.locked, hw.byte⟩
    (fun b hb => ⟨rfl, if_neg hb, rfl⟩) ⟨rfl, rfl⟩ fun _ _ => rfl

theorem setLocked (h : Agrees s store m) (area : Area) (l : Bool) :
    Agrees (s.lock area l) store (m.setLocked area l) := by
  have hw := h.window area
  refine h.mapWindow area (·.setLocked l) ⟨?_, hw.selected, fun i hi => ?_, fun i o hi ho => ?_⟩
    (fun b hb => ⟨rfl, rfl, if_neg hb⟩) ⟨rfl, rfl⟩ fun _ _ => rfl
  · rw [Window.size_banks_setLocked, hw.banks]
    rfl
  · have hi : i < s.banks area := hi
    rw [Window.isLocked_setLocked, hw.banks, decide_eq_true hi, Bool.true_and]
    exact (if_pos rfl).symm
  · rw [Window.get?_setLocked, hw.byte i o hi ho]

theorem loadFixedRom (h : Agrees s store m) (hb : s.banks .fixedRom = 1)
    (hs : s.selected .fixedRom = 0) (hl : s.locked .fixedRom = false) {data : ByteArray}
    (hd : data.size = 0x4000) :
    Agrees s (fun c => (s.stored? (.loadFixedRom data hd) c).getD (store c))
      (m.loadFixedRom data) := by
  refine h.mapWindow .fixedRom (fun _ => ⟨#[{ data := data }], 0⟩)
    ⟨hb.symm, hs.symm, fun i hi => ?_, fun i o hi ho => ?_⟩
    (fun b _ => ⟨rfl, rfl, rfl⟩) ⟨rfl, rfl⟩ fun c hc => ?_
  · obtain rfl : i = 0 := by omega
    exact hl.symm
  · obtain rfl : i = 0 := by omega
    have ho : o < data.size := hd ▸ ho
    have hv : Bytes.get? data o = some (data.get o ho) := dif_pos ho
    show Bytes.get? data o = some ((Bytes.get? data o).getD _)
    rw [hv, Option.getD_some]
  · cases c with
    | bank area i o =>
      cases area with
      | fixedRom => exact absurd rfl (hc i o)
      | _ => rfl
    | ram i o => rfl

theorem loadSwitchRom (h : Agrees s store m) (hl : s.locked .switchRom = false)
    (data : ByteArray) (n : Nat) :
    Agrees (s.apply (.loadSwitchRom data n))
      (fun c => (s.stored? (.loadSwitchRom data n) c).getD (store c))
      (m.loadSwitchRom data n) := by
  have hn : (s.apply (.loadSwitchRom data n)).banks .switchRom = n := rfl
  have bank {i : Nat} (hi : i < n) :
      ((Array.range n).map (MemoryMap.romBank data))[i]? = some (MemoryMap.romBank data i) := by
    simp [hi]
  refine h.mapWindow .switchRom
    (fun w => { w with banks := (Array.range n).map (MemoryMap.romBank data) })
    ⟨?_, (h.window .switchRom).selected, fun i hi => ?_, fun i o hi ho => ?_⟩
    (fun b hb => ⟨if_neg hb, rfl, rfl⟩) ⟨rfl, rfl⟩ fun c hc => ?_
  · rw [hn, Array.size_map, Array.size_range]
  · rw [Window.isLocked, bank hi]
    exact hl.symm
  · have ho : o < 0x4000 := ho
    have hg : Window.get? ⟨(Array.range n).map (MemoryMap.romBank data), m.switchRom.selected⟩ i o =
        (MemoryMap.romBank data i).get? o := Window.get?_of_bank (bank hi) o
    have hv : s.stored? (.loadSwitchRom data n) (.bank .switchRom i o) =
        some ((Bytes.get? data (i * 0x4000 + o)).getD 0) := rfl
    rw [hv, Option.getD_some]
    exact hg.trans (by rw [MemoryMap.get?_romBank, if_pos ho])
  · cases c with
    | bank area i o =>
      cases area with
      | switchRom => exact absurd rfl (hc i o)
      | _ => rfl
    | ram i o => rfl

/-- Bytes of different banks or offsets are at different positions. -/
theorem position_inj {i j o p : Nat} (ho : o < 0x2000) (hp : p < 0x2000)
    (h : CartridgeRam.position i o = CartridgeRam.position j p) : i = j ∧ o = p := by
  simp only [CartridgeRam.position, CartridgeRam.bankSize] at h
  omega

theorem putRam (h : m.ram.Shows s store) (d : Disk) {i o : Nat} (hi : i < s.ramBanks)
    (ho : o < 0x2000) (v : UInt8) :
    (m.ram.put d i o v).1.Shows s (fun c => if .ram i o = c then v else store c) := by
  have hin := h.inMemory
  have hbanks := h.banks
  have hbyte := h.byte d
  cases hm : m.ram with
  | none =>
    rw [hm] at hbanks
    exact absurd hi (by rw [← hbanks]; exact Nat.not_lt_zero i)
  | persistent =>
    rw [hm] at hin
    cases hin
  | volatile data n =>
    rw [hm] at hbanks hbyte
    refine ⟨rfl, hbanks, fun d j p hj hp => ?_⟩
    have hv : Bytes.get? data (CartridgeRam.position j p) = some (store (.ram j p)) := by
      have hg := hbyte j p hj hp
      unfold CartridgeRam.get at hg
      dsimp only at hg
      split at hg
      · next w hw => rw [hw, Except.ok.inj hg]
      · cases hg
    have hlt := Bytes.lt_size_of_get? hv
    simp only [CartridgeRam.put, CartridgeRam.get, Bytes.get?_set, hv]
    -- The banks lie in a row in one array; a byte is replaced exactly where the positions meet.
    by_cases he : CartridgeRam.position i o = CartridgeRam.position j p
    · obtain ⟨rfl, rfl⟩ := position_inj ho hp he
      simp [hlt]
    · have hne : ¬ Cell.ram i o = Cell.ram j p := by
        rintro ⟨⟩
        exact he rfl
      simp [he, hne]

/-- An accepted write changes its cell and no other. -/
theorem put (h : Agrees s store m) (d : Disk) {c : Cell} (hc : s.Has c) (hr : c.isRom = false)
    (hl : s.isLocked c = false) (v : UInt8) :
    Agrees s (fun c' => if c = c' then v else store c') (m.put d c v).1 := by
  have hm := h.isLocked_eq hc
  cases c with
  | bank area i o =>
    have hw := h.window area
    -- Setup and window agree on the lock, so the write goes through.
    have hk : (area.isRom || (m.window area).isLocked i) = false := by
      rw [Bool.or_eq_false_iff]
      exact ⟨hr, hm.trans hl⟩
    rw [MemoryMap.put, if_neg (Bool.not_eq_true _ ▸ hk)]
    refine h.mapWindow area (·.set i o v) ⟨?_, hw.selected, fun j hj => ?_, fun j p hj hp => ?_⟩
      (fun b _ => ⟨rfl, rfl, rfl⟩) ⟨rfl, rfl⟩ fun c' hc' => if_neg (Ne.symm (hc' i o))
    · rw [Window.size_banks_set, hw.banks]
    · rw [Window.isLocked_set, hw.locked j hj]
    · rw [Window.get?_set, hw.byte j p hj hp]
      by_cases he : i = j ∧ o = p
      · obtain ⟨rfl, rfl⟩ := he
        simp
      · rw [if_neg fun hn => he ⟨hn.1, hn.2.1⟩, if_neg]
        rintro ⟨⟩
        exact he ⟨rfl, rfl⟩
  | ram i o =>
    exact
      { window := fun b => (h.window b).congr rfl rfl rfl fun _ _ => if_neg (by rintro ⟨⟩)
        ram := putRam h.ram d hc.1 hc.2 v
        ramSelected := h.ramSelected }

/-- Cartridge RAM in memory starts out with zeros. -/
theorem attachRam (h : Agrees s store m) (n : Nat) (battery : Bool) (path : Option String) :
    Agrees (s.apply (.attachRam n battery path))
      (fun c => (s.stored? (.attachRam n battery path) c).getD (store c))
      (m.setRam (.ofBanks n)) where
  window b := by
    refine (h.window b).congr rfl rfl rfl fun i o => ?_
    cases b <;> rfl
  ram := by
    unfold MemoryMap.setRam CartridgeRam.ofBanks
    split
    · next hn => exact ⟨rfl, hn.symm, fun d i o hi _ => absurd hi (by
        show ¬ i < n
        omega)⟩
    · refine ⟨rfl, rfl, fun d i o hi ho => ?_⟩
      have hi : i < n := hi
      have hp : CartridgeRam.position i o < n * CartridgeRam.bankSize := by
        simp only [CartridgeRam.position, CartridgeRam.bankSize]
        omega
      simp only [CartridgeRam.get, Bytes.get?_zeros, if_pos hp]
      rfl
  ramSelected := rfl

/-- A rejected write changes nothing. -/
theorem write_of_target?_none (h : Agrees s store m) (d : Disk) {a : UInt16}
    (ha : s.target? a = none) (v : UInt8) : m.write d a v = (m, d) := by
  have hc := h.cell?_eq a
  unfold MemoryMap.write
  cases hm : m.cell? a with
  | error e => rfl
  | ok c =>
    rw [hm] at hc
    have hh : s.Has c := Setup.has_of_cell? hc.symm
    have hk : (c.isRom || s.isLocked c) = true := by
      rw [← Bool.not_eq_false, Bool.or_eq_false_iff]
      intro hn
      rw [Setup.target?_eq_some.2 ⟨hc.symm, hn⟩] at ha
      cases ha
    rw [← h.isLocked_eq hh] at hk
    cases c with
    | bank area i o => exact if_pos hk
    | ram i o => cases hk

/-- An accepted write reaches its cell. -/
theorem write_of_target?_some (h : Agrees s store m) (d : Disk) {a : UInt16} {c : Cell}
    (ha : s.target? a = some c) (v : UInt8) : m.write d a v = m.put d c v := by
  have hc := h.cell?_eq a
  rw [(Setup.target?_eq_some.1 ha).1] at hc
  unfold MemoryMap.write
  cases hm : m.cell? a with
  | error e =>
    rw [hm] at hc
    cases hc
  | ok c' =>
    rw [hm] at hc
    cases hc
    rfl

theorem write (h : Agrees s store m) (d : Disk) (a : UInt16) (v : UInt8) :
    Agrees s (fun c => (s.stored? (.write a v) c).getD (store c)) (m.write d a v).1 := by
  cases ha : s.target? a with
  | none =>
    rw [h.write_of_target?_none d ha]
    simpa [Setup.stored?, ha] using h
  | some c =>
    obtain ⟨hc, hr, hl⟩ := Setup.target?_eq_some.1 ha
    have hp := h.put d (Setup.has_of_cell? hc) hr hl v
    rw [h.write_of_target?_some d ha]
    have he : (fun c' => (s.stored? (.write a v) c').getD (store c')) =
        fun c' => if c = c' then v else store c' := by
      funext c'
      by_cases he : c = c' <;> simp [Setup.stored?, ha, he]
    exact he ▸ hp

end Agrees

/-! ### Histories -/

/-- What every setup has in common: which banks there are, and what stays unselected and
unlocked. -/
structure Setup.Regular (s : Setup) : Prop where
  banks : ∀ area, area ≠ .switchRom → s.banks area = area.bankCount
  selected : ∀ area, area.isSwitched = false → s.selected area = 0
  locked : ∀ area, area.isLockable = false → s.locked area = false

namespace Setup.Regular

variable {s : Setup}

theorem select (h : s.Regular) (area : Area) (ha : area.isSwitched = true) (i : Nat) :
    (s.select area i).Regular where
  banks := h.banks
  selected b hb := by
    have hne : ¬ area = b := by
      rintro rfl
      rw [ha] at hb
      cases hb
    exact (if_neg hne).trans (h.selected b hb)
  locked := h.locked

theorem lock (h : s.Regular) (area : Area) (ha : area.isLockable = true) (l : Bool) :
    (s.lock area l).Regular where
  banks := h.banks
  selected := h.selected
  locked b hb := by
    have hne : ¬ area = b := by
      rintro rfl
      rw [ha] at hb
      cases hb
    exact (if_neg hne).trans (h.locked b hb)

theorem apply (h : s.Regular) (op : Change) : (s.apply op).Regular := by
  cases op with
  | selectRom i => exact h.select .switchRom rfl i
  | selectVideo i => exact h.select .videoRam rfl i
  | selectWork i => exact h.select .switchWork rfl i
  | lockVideo l => exact h.lock .videoRam rfl l
  | lockObjects l => exact h.lock .objects rfl l
  | loadSwitchRom data n =>
    exact ⟨fun b hb => (if_neg hb.symm).trans (h.banks b hb), h.selected, h.locked⟩
  | _ => exact ⟨h.banks, h.selected, h.locked⟩

theorem after (history : List Change) : (Setup.after history).Regular := by
  induction history with
  | nil => exact ⟨fun _ _ => rfl, fun _ _ => rfl, fun _ _ => rfl⟩
  | cons op older ih => exact ih.apply op

end Setup.Regular

/-- Each change of the board is the change of the setup and the store. -/
theorem Agrees.apply {s : Setup} {store : Cell → UInt8} {b : Board} (h : Agrees s store b.map)
    (hs : s.Regular) (op : Change) (hv : op.isVolatile = true) :
    Agrees (s.apply op) (fun c => (s.stored? op c).getD (store c)) (b.apply op).map := by
  cases op with
  | write a v => exact h.write b.disk a v
  | selectRom i => exact h.select .switchRom i
  | selectVideo i => exact h.select .videoRam i
  | selectWork i => exact h.select .switchWork i
  | selectRam i =>
    exact ⟨fun area => (h.window area).congr rfl rfl rfl fun _ _ => rfl,
      ⟨h.ram.inMemory, h.ram.banks, h.ram.byte⟩, rfl⟩
  | lockVideo l => exact h.setLocked .videoRam l
  | lockObjects l => exact h.setLocked .objects l
  | loadFixedRom data hd =>
    exact h.loadFixedRom (hs.banks _ nofun) (hs.selected _ rfl) (hs.locked _ rfl) hd
  | loadSwitchRom data n => exact h.loadSwitchRom (hs.locked _ rfl) data n
  | attachRam n battery path =>
    cases battery with
    | true =>
      obtain rfl : n = 0 := by simpa [Change.isVolatile] using hv
      exact h.attachRam 0 true path
    | false => exact h.attachRam n false path
  | flush => exact h

/-- Every history without a save file makes the board agree with the setup and the content that the
history leaves. -/
theorem agrees_after (d : Disk) (history : List Change)
    (hv : ∀ op ∈ history, op.isVolatile = true) :
    Agrees (Setup.after history) (Setup.content history) (Board.after d history).map := by
  -- The newest change comes first, so the induction is on how long the board has been in use.
  induction history with
  | nil =>
    refine ⟨fun area => ?_, ⟨rfl, rfl, fun d i o hi _ => absurd hi (Nat.not_lt_zero i)⟩, rfl⟩
    have hz := Window.Shows.zeros area
    cases area <;> exact hz
  | cons op older ih =>
    have ih := ih fun p hp => hv p (List.mem_cons_of_mem _ hp)
    exact ih.apply (Setup.Regular.after older) op (hv op List.mem_cons_self)

/-- The memory map is a flat store in which the last write wins. After every history a read answers
with the content of the cell that its address reaches, or with an open bus if there is none or it is
locked. A write that is not accepted changes nothing, and an accepted one changes its cell and no
other. -/
theorem flat_store (d : Disk) (history : List Change)
    (hv : ∀ op ∈ history, op.isVolatile = true) (a : UInt16) :
    let b := Board.after d history
    let s := Setup.after history
    ((Bus.read b a).1 =
      match s.cell? a with
      | none => 0xFF
      | some c => if s.isLocked c then 0xFF else Setup.content history c) ∧
    (∀ v, s.target? a = none → Bus.write b a v = b) ∧
    (∀ v c, s.target? a = some c → ∀ c', s.Has c' →
      (Bus.write b a v).map.get (Bus.write b a v).disk c' =
        .ok (if c = c' then v else Setup.content history c')) ∧
    (0xE000 ≤ a.toNat → a.toNat < 0xFE00 → s.cell? a = s.cell? (a - 0x2000)) ∧
    (0xFEA0 ≤ a.toNat → a.toNat < 0xFF00 → s.cell? a = none) := by
  intro b s
  have h : Agrees s (Setup.content history) b.map := agrees_after d history hv
  refine ⟨h.read_eq b.disk a, fun v ha => ?_, fun v c ha c' hc' => ?_, s.cell?_echo,
    s.cell?_unusable⟩
  · show (⟨(b.map.write b.disk a v).1, (b.map.write b.disk a v).2⟩ : Board) = b
    rw [h.write_of_target?_none b.disk ha]
  · obtain ⟨hc, hr, hl⟩ := Setup.target?_eq_some.1 ha
    have hp := h.put b.disk (Setup.has_of_cell? hc) hr hl v
    show (b.map.write b.disk a v).1.get (b.map.write b.disk a v).2 c' = _
    rw [h.write_of_target?_some b.disk ha]
    exact hp.get_eq _ hc'

/-- A byte that is written through the echo of a switched bank is there again when the bank is. -/
theorem flat_store_echo_of_bank :
    (Bus.read (Board.after {} [.selectWork 2, .write 0xD005 7, .selectWork 5, .lockVideo true,
      .write 0xF005 0x42, .selectWork 2]) 0xD005).1 = 0x42 :=
  (flat_store {} _ (by decide) 0xD005).1.trans (by decide)

end DotMatrix
