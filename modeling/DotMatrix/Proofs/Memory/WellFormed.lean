import DotMatrix.Memory.Board

/-!
# Well-formed memory maps

A memory map starts out empty and is then changed by writes, selections, locks, loads and the
attachment of cartridge RAM.

* `Change` is one such change, `Board.apply` makes it, and `Board.after` makes a history of them.
* `Window.Fits` says how many banks a window has, how large they are and which may be locked, and
  `MemoryMap.WellFormed` says it of all windows. Every change keeps it (`wellFormed_apply`).
-/

namespace DotMatrix

namespace Area

/-- The number of banks; the switchable ROM has as many as were loaded. -/
def bankCount : Area → Nat
  | switchRom => 0
  | videoRam => 2
  | switchWork => 7
  | _ => 1

/-- Whether a bank of the area can be selected. -/
def isSwitched : Area → Bool
  | switchRom | videoRam | switchWork => true
  | _ => false

/-- Whether the area can be locked. -/
def isLockable : Area → Bool
  | videoRam | objects => true
  | _ => false

end Area

/-! ### Changes -/

/-- A change of a memory map. -/
inductive Change
  | write (a : UInt16) (v : UInt8)
  | selectRom (index : Nat)
  | selectVideo (index : Nat)
  | selectWork (index : Nat)
  | selectRam (index : Nat)
  | lockVideo (locked : Bool)
  | lockObjects (locked : Bool)
  /-- The fixed ROM is loaded with exactly one bank. -/
  | loadFixedRom (data : ByteArray) (size_eq : data.size = 0x4000)
  | loadSwitchRom (data : ByteArray) (count : Nat)
  | attachRam (banks : Nat) (battery : Bool) (path : Option String)
  | flush

namespace Board

/-- Make a change; one that fails may leave a new file on the disk, but no new memory map. -/
def apply (b : Board) : Change → Board
  | .write a v => Bus.write b a v
  | .selectRom i => { b with map := b.map.select .switchRom i }
  | .selectVideo i => { b with map := b.map.select .videoRam i }
  | .selectWork i => { b with map := b.map.select .switchWork i }
  | .selectRam i => { b with map := b.map.selectRam i }
  | .lockVideo l => { b with map := b.map.setLocked .videoRam l }
  | .lockObjects l => { b with map := b.map.setLocked .objects l }
  | .loadFixedRom data _ => { b with map := b.map.loadFixedRom data }
  | .loadSwitchRom data n => { b with map := b.map.loadSwitchRom data n }
  | .attachRam n battery path => (b.attachRam n battery path).2
  | .flush => b.flush.toOption.getD b

/-- The board that a history of changes, newest first, makes of an empty memory map. -/
def after (d : Disk) : List Change → Board
  | [] => { disk := d }
  | op :: older => (after d older).apply op

end Board

/-! ### Windows -/

/-- What holds of the window of an area at all times. -/
structure Window.Fits (w : Window) (area : Area) : Prop where
  count : area ≠ .switchRom → w.banks.size = area.bankCount
  size : ∀ (i : Nat) (b : Bank), w.banks[i]? = some b → b.size = area.bankSize
  selected : area.isSwitched = false → w.selected = 0
  /-- The banks of an area are locked together, and only where the area can be locked. -/
  locked : ∀ (i : Nat) (b : Bank), w.banks[i]? = some b →
    b.locked = (area.isLockable && w.isLocked 0)

namespace Window.Fits

variable {w : Window} {area : Area}

theorem zeros (area : Area) : (Window.zeros area.bankCount area.bankSize).Fits area where
  count _ := by simp [Window.zeros]
  size i b h := by
    simp only [Window.zeros, Array.getElem?_replicate, Option.ite_none_right_eq_some] at h
    rw [← Option.some.inj h.2]
    exact Bank.size_zeros _
  selected _ := rfl
  locked i b h := by
    simp only [Window.zeros, Array.getElem?_replicate, Option.ite_none_right_eq_some] at h
    obtain ⟨hi, rfl⟩ : i < area.bankCount ∧ Bank.zeros area.bankSize = b := by simpa using h
    have h0 : 0 < area.bankCount := by omega
    simp [Bank.zeros, Window.isLocked, Window.zeros, h0]

theorem select (h : w.Fits area) (hs : area.isSwitched = true) (i : Nat) :
    (w.select i).Fits area where
  count := h.count
  size := h.size
  selected hn := by simp [hs] at hn
  locked := h.locked

theorem set (h : w.Fits area) (i o : Nat) (v : UInt8) : (w.set i o v).Fits area where
  count hn := by rw [size_banks_set, h.count hn]
  size j b hb := by
    simp only [Window.set, Array.getElem?_modify] at hb
    split at hb
    · obtain ⟨c, hc, rfl⟩ := Option.map_eq_some_iff.1 hb
      rw [Bank.size_set, h.size j c hc]
    · exact h.size j b hb
  selected := h.selected
  locked j b hb := by
    rw [isLocked_set]
    simp only [Window.set, Array.getElem?_modify] at hb
    split at hb
    · obtain ⟨c, hc, rfl⟩ := Option.map_eq_some_iff.1 hb
      rw [Bank.locked_set, h.locked j c hc]
    · exact h.locked j b hb

theorem setLocked (h : w.Fits area) (hl : area.isLockable = true) (l : Bool) :
    (w.setLocked l).Fits area where
  count hn := by simpa [Window.setLocked] using h.count hn
  size i b hb := by
    simp only [Window.setLocked, Array.getElem?_map] at hb
    obtain ⟨c, hc, rfl⟩ := Option.map_eq_some_iff.1 hb
    exact h.size i c hc
  selected := h.selected
  locked i b hb := by
    simp only [Window.setLocked, Array.getElem?_map] at hb
    obtain ⟨c, hc, rfl⟩ := Option.map_eq_some_iff.1 hb
    have hi : i < w.banks.size := (Array.getElem?_eq_some_iff.1 hc).1
    have h0 : 0 < w.banks.size := by omega
    simp [hl, Window.isLocked, Window.setLocked, h0]

end Window.Fits

/-! ### Memory maps -/

/-- What holds of a memory map at all times. -/
structure MemoryMap.WellFormed (m : MemoryMap) : Prop where
  fits : ∀ area, (m.window area).Fits area
  volatile : ∀ data n, m.ram = .volatile data n → data.size = n * CartridgeRam.bankSize

namespace MemoryMap.WellFormed

variable {m : MemoryMap}

theorem empty : WellFormed {} where
  fits area := by
    have h := Window.Fits.zeros area
    cases area <;> exact h
  volatile := by
    rintro data n ⟨⟩

theorem mapWindow (h : m.WellFormed) (area : Area) (g : Window → Window)
    (hg : (g (m.window area)).Fits area) : (m.mapWindow area g).WellFormed where
  fits b := by
    rw [window_mapWindow]
    split
    · next e => exact e ▸ hg
    · exact h.fits b
  volatile := by
    rw [ram_mapWindow]
    exact h.volatile

/-- A bank that is there has all its bytes. -/
theorem get?_isSome (h : m.WellFormed) {area : Area} {i o : Nat}
    (hi : i < (m.window area).banks.size) (ho : o < area.bankSize) :
    ((m.window area).get? i o).isSome := by
  have hb : (m.window area).banks[i]? = some (m.window area).banks[i] :=
    Array.getElem?_eq_getElem hi
  have hs := (h.fits area).size i _ hb
  simp only [Window.get?, hb, Option.isSome_iff_ne_none]
  intro hn
  have := (Bytes.get?_eq_none_iff _ o).1 hn
  exact absurd ho (by rw [← hs]; exact Nat.not_lt.2 this)

theorem put (h : m.WellFormed) (d : Disk) (c : Cell) (v : UInt8) : (m.put d c v).1.WellFormed := by
  cases c with
  | bank area i o =>
    simp only [MemoryMap.put]
    split
    · exact h
    · exact h.mapWindow area (·.set i o v) ((h.fits area).set i o v)
  | ram i o =>
    refine ⟨h.fits, fun data n hr => ?_⟩
    simp only [MemoryMap.put, CartridgeRam.put] at hr
    cases hm : m.ram with
    | none => simp [hm] at hr
    | persistent => simp [hm] at hr
    | volatile old k =>
      simp only [hm, CartridgeRam.volatile.injEq] at hr
      obtain ⟨rfl, rfl⟩ := hr
      rw [Bytes.size_set, h.volatile old k hm]

theorem write (h : m.WellFormed) (d : Disk) (a : UInt16) (v : UInt8) :
    (m.write d a v).1.WellFormed := by
  unfold MemoryMap.write
  split
  · exact h
  · exact h.put d _ v

theorem select (h : m.WellFormed) (area : Area) (hs : area.isSwitched = true) (i : Nat) :
    (m.select area i).WellFormed :=
  h.mapWindow area _ ((h.fits area).select hs i)

theorem setLocked (h : m.WellFormed) (area : Area) (hl : area.isLockable = true) (l : Bool) :
    (m.setLocked area l).WellFormed :=
  h.mapWindow area _ ((h.fits area).setLocked hl l)

theorem loadFixedRom (h : m.WellFormed) {data : ByteArray} (hd : data.size = 0x4000) :
    (m.loadFixedRom data).WellFormed := by
  refine h.mapWindow .fixedRom (fun _ => ⟨#[{ data := data }], 0⟩) ?_
  have single (i : Nat) (b : Bank) (hb : #[({ data := data } : Bank)][i]? = some b) :
      b = { data := data } := by
    obtain ⟨hi, rfl⟩ := Array.getElem?_eq_some_iff.1 hb
    obtain rfl : i = 0 := Nat.lt_one_iff.1 hi
    rfl
  exact
    { count := fun _ => rfl
      size := fun i b hb => single i b hb ▸ hd
      selected := fun _ => rfl
      locked := fun i b hb => by
        rw [single i b hb]
        rfl }

theorem loadSwitchRom (h : m.WellFormed) (data : ByteArray) (count : Nat) :
    (m.loadSwitchRom data count).WellFormed := by
  refine h.mapWindow .switchRom
    (fun w => { w with banks := (Array.range count).map (romBank data) }) ?_
  have loaded (i : Nat) (b : Bank) (hb : ((Array.range count).map (romBank data))[i]? = some b) :
      ∃ n, b = romBank data n := by
    rw [Array.getElem?_map] at hb
    obtain ⟨n, -, rfl⟩ := Option.map_eq_some_iff.1 hb
    exact ⟨n, rfl⟩
  refine
    { count := fun hn => absurd rfl hn
      size := fun i b hb => ?_
      selected := fun hn => by cases hn
      locked := fun i b hb => ?_ } <;>
    obtain ⟨n, rfl⟩ := loaded i b hb
  · exact Bytes.size_resize _ _
  · rfl

theorem setRam (h : m.WellFormed) {ram : CartridgeRam}
    (hr : ∀ data n, ram = .volatile data n → data.size = n * CartridgeRam.bankSize) :
    (m.setRam ram).WellFormed where
  fits := h.fits
  volatile := hr

end MemoryMap.WellFormed

namespace CartridgeRam

theorem size_ofBanks {banks n : Nat} {data : ByteArray} (h : ofBanks banks = volatile data n) :
    data.size = n * bankSize := by
  unfold ofBanks at h
  split at h
  · cases h
  · obtain ⟨rfl, rfl⟩ := volatile.inj h
    exact Bytes.size_zeros _

theorem openSave_ne_volatile {path : String} {banks : Nat} {d d' : Disk} {ram : CartridgeRam}
    (h : openSave path banks d = (.ok ram, d')) (data : ByteArray) (n : Nat) :
    ram ≠ volatile data n := by
  unfold openSave at h
  split at h
  · cases h
    nofun
  · split at h
    · cases h
    · split at h <;> cases h
      nofun

end CartridgeRam

namespace Board

theorem wellFormed_attachRam {b : Board} (h : b.map.WellFormed) (banks : Nat) (battery : Bool)
    (path : Option String) : (b.attachRam banks battery path).2.map.WellFormed := by
  unfold attachRam
  split
  · split
    · exact h
    · split
      · next hs =>
        exact h.setRam fun data n hr => absurd hr (CartridgeRam.openSave_ne_volatile hs data n)
      · exact h
  · exact h.setRam fun data n hr => CartridgeRam.size_ofBanks hr

theorem wellFormed_apply {b : Board} (h : b.map.WellFormed) (op : Change) :
    (b.apply op).map.WellFormed := by
  cases op with
  | write a v => exact h.write b.disk a v
  | selectRom i => exact h.select .switchRom rfl i
  | selectVideo i => exact h.select .videoRam rfl i
  | selectWork i => exact h.select .switchWork rfl i
  | selectRam i => exact ⟨h.fits, h.volatile⟩
  | lockVideo l => exact h.setLocked .videoRam rfl l
  | lockObjects l => exact h.setLocked .objects rfl l
  | loadFixedRom data hd => exact h.loadFixedRom hd
  | loadSwitchRom data n => exact h.loadSwitchRom data n
  | attachRam n battery path => exact wellFormed_attachRam h n battery path
  | flush => exact h

end Board

end DotMatrix
