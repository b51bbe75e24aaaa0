import DotMatrix.Proofs.Memory.Place
import DotMatrix.Proofs.Memory.WellFormed

/-!
# Accesses that check every index

The byte behind an address is found by differences of addresses and by indices into banks, and a
write sorts out the regions that it leaves alone before it looks for a bank.

* `Breach` is what would break such an access off: a negative difference, an index out of range, a
  region that should have been sorted out.
* `MemoryMap.readChecked`, `MemoryMap.peekChecked` and `MemoryMap.writeChecked` make the accesses step
  by step and stop at a breach. On a well-formed memory map there is none, and they do what
  `MemoryMap.read` and `MemoryMap.readUnlocked`, `MemoryMap.peek`, and `MemoryMap.write` do. Reads,
  peeks and writes sort out the regions each in their own way.
* `MemoryMap.Layout` is the size of every bank, and which banks may be locked, in numbers.
* `MemoryMap.layout_afterAll` says both of the memory map after any history of changes, each of
  which finds the disk as it may be.
-/

namespace DotMatrix

/-- What breaks an access off. -/
inductive Breach
  /-- A difference of addresses that is negative. -/
  | underflow (a b : UInt16)
  /-- An index that is not below the size. -/
  | outOfRange (index size : Nat)
  /-- A region that was sorted out before. -/
  | unexpected (r : Region)
  deriving DecidableEq, Repr

/-! ### Addresses -/

namespace Region

/-- How far an address lies above the base of its region, by a difference of addresses. -/
def offsetChecked (a : UInt16) : Except Breach Nat :=
  if (of a).base ≤ a then .ok (a - (of a).base).toNat else .error (.underflow a (of a).base)

theorem offsetChecked_eq (a : UInt16) : offsetChecked a = .ok (offset a) := by
  have hb : (of a).base ≤ a := by
    rw [UInt16.le_iff_toNat_le, toNat_base]
    exact (mem_range a).1
  rw [offsetChecked, if_pos hb, offset, UInt16.toNat_sub_of_le _ _ hb]

/-- The address that an echo leads to is lower, so that following an echo ends. -/
theorem toNat_sub_lt {a : UInt16} (h : 0x2000 ≤ a) : (a - 0x2000).toNat < a.toNat := by
  rw [UInt16.toNat_sub_of_le _ _ h]
  have h : 0x2000 ≤ a.toNat := UInt16.le_iff_toNat_le.1 h
  exact Nat.sub_lt (Nat.lt_of_lt_of_le (by decide) h) (by decide)

/-- An echo address is 0x2000 above an address. -/
theorem le_of_echo {a : UInt16} (h : of a = .echo) : 0x2000 ≤ a := by
  have hr := mem_range a
  rw [h] at hr
  have hr : 0xE000 ≤ a.toNat := hr.1
  rw [UInt16.le_iff_toNat_le]
  exact Nat.le_trans (by decide) hr

end Region

/-- The same place is behind an echo address and the address 0x2000 below it. -/
theorem Place.of_echo {a : UInt16} (h : Region.of a = .echo) :
    Place.of a = Place.of (a - 0x2000) := by
  have hr := Region.mem_range a
  rw [h] at hr
  rw [of_eq, of_eq, unecho_sub hr.1 hr.2]

theorem MemoryMap.cell?_echo (m : MemoryMap) {a : UInt16} (h : Region.of a = .echo) :
    m.cell? a = m.cell? (a - 0x2000) := by
  rw [cell?, cell?, Place.of_echo h]

/-! ### Cartridge RAM -/

namespace CartridgeRam

/-- Read a byte of a bank, or find that there is no such bank. -/
def readChecked (ram : CartridgeRam) (d : Disk) (index o : Nat) :
    Except Breach (Except Miss UInt8) :=
  if bankSize ≤ o then .error (.outOfRange o bankSize)
  else if index < ram.bankCount then
    match ram with
    | none => .error (.unexpected .cartridgeRam)
    | volatile data _ =>
      match Bytes.get? data (position index o) with
      | some v => .ok (.ok v)
      | Option.none => .error (.outOfRange (position index o) data.size)
    | persistent .. => .ok (ram.get d index o)
  else .ok (.error (.failed (ram.noSuchBank index)))

/-- Write a byte of a bank, or find that there is no such bank. -/
def writeChecked (ram : CartridgeRam) (d : Disk) (index o : Nat) (v : UInt8) :
    Except Breach (Except MemoryError (CartridgeRam × Disk)) :=
  if bankSize ≤ o then .error (.outOfRange o bankSize)
  else if index < ram.bankCount then
    match ram with
    | none => .error (.unexpected .cartridgeRam)
    | volatile data _ =>
      if position index o < data.size then .ok (.ok (ram.put d index o v))
      else .error (.outOfRange (position index o) data.size)
    | persistent .. => .ok (.ok (ram.put d index o v))
  else .ok (.error (ram.noSuchBank index))

variable {ram : CartridgeRam} {index o : Nat}
  (hv : ∀ data n, ram = volatile data n → data.size = n * bankSize) (ho : o < bankSize)
include hv ho

/-- A byte of a bank that is there is in the array. -/
theorem position_lt_size {data : ByteArray} {n : Nat} (h : ram = volatile data n)
    (hi : index < ram.bankCount) : position index o < data.size := by
  subst h
  have hi : index < n := hi
  rw [hv data n rfl]
  unfold position bankSize at *
  omega

theorem readChecked_eq (d : Disk) : ram.readChecked d index o = .ok (ram.read d index o) := by
  unfold readChecked read
  rw [if_neg (Nat.not_le.2 ho)]
  split
  · next hi =>
    cases hr : ram with
    | none =>
      rw [hr] at hi
      exact absurd hi (Nat.not_lt_zero index)
    | volatile data n =>
      obtain ⟨v, hg⟩ := Bytes.exists_get? (position_lt_size hv ho hr hi)
      simp only [get, hg]
    | persistent => rfl
  · rfl

theorem writeChecked_eq (d : Disk) (v : UInt8) :
    ram.writeChecked d index o v = .ok (ram.write d index o v) := by
  unfold writeChecked write
  rw [if_neg (Nat.not_le.2 ho)]
  split
  · next hi =>
    cases hr : ram with
    | none =>
      rw [hr] at hi
      exact absurd hi (Nat.not_lt_zero index)
    | volatile data n => exact if_pos (position_lt_size hv ho hr hi)
    | persistent => rfl
  · rfl

end CartridgeRam

/-! ### Reads -/

/-- How a read treats locks, and what it answers where there is no byte. -/
structure ReadMode where
  ignoresLocks : Bool
  missing : UInt8

namespace MemoryMap

/-- Read in a mode. -/
def readAs (m : MemoryMap) (d : Disk) (mode : ReadMode) (a : UInt16) : UInt8 :=
  match m.cell? a with
  | .error _ => mode.missing
  | .ok c =>
    if m.isLocked c && !mode.ignoresLocks then mode.missing
    else (m.get d c).toOption.getD mode.missing

theorem readAs_honouring (m : MemoryMap) (d : Disk) (a : UInt16) :
    m.readAs d ⟨false, openBus⟩ a = m.read d a := by
  unfold readAs read
  cases m.cell? a with
  | error e => rfl
  | ok c =>
    dsimp only
    rw [Bool.not_false, Bool.and_true]

theorem readAs_ignoring (m : MemoryMap) (d : Disk) (missing : UInt8) (a : UInt16) :
    m.readAs d ⟨true, missing⟩ a = (m.lookup d a).toOption.getD missing := by
  unfold readAs lookup
  cases m.cell? a with
  | error e => rfl
  | ok c =>
    simp only [Bool.not_true, Bool.and_false]
    rfl

/-- Cartridge RAM is looked up in the bank that is selected. -/
theorem lookup_of_cartridge (m : MemoryMap) (d : Disk) {a : UInt16} {o : Nat}
    (hp : Place.of a = .cartridge o) : m.lookup d a = m.ram.read d m.ramIndex o := by
  unfold lookup cell? CartridgeRam.read
  rw [hp]
  dsimp only
  split <;> rfl

/-- Read from the bank that an area shows. Only an area that switches its banks may show none. -/
def readAreaChecked (m : MemoryMap) (mode : ReadMode) (area : Area) (o : Nat) :
    Except Breach UInt8 :=
  let w := m.window area
  match w.banks[w.selected]? with
  | some b =>
    if b.locked && !mode.ignoresLocks then .ok mode.missing
    else
      match b.get? o with
      | some v => .ok v
      | none => .error (.outOfRange o b.size)
  | none =>
    if area.isSwitched then .ok mode.missing else .error (.outOfRange w.selected w.banks.size)

/-- Read in a mode; an echo address is read where it leads to. -/
def readChecked (m : MemoryMap) (d : Disk) (mode : ReadMode) (a : UInt16) :
    Except Breach UInt8 := do
  let o ← Region.offsetChecked a
  match Region.of a with
  | .fixedRom => m.readAreaChecked mode .fixedRom o
  | .switchRom => m.readAreaChecked mode .switchRom o
  | .videoRam => m.readAreaChecked mode .videoRam o
  | .cartridgeRam =>
    let answer ← m.ram.readChecked d m.ramIndex o
    return answer.toOption.getD mode.missing
  | .fixedWork => m.readAreaChecked mode .fixedWork o
  | .switchWork => m.readAreaChecked mode .switchWork o
  | .echo =>
    if h : 0x2000 ≤ a then readChecked m d mode (a - 0x2000) else .error (.underflow a 0x2000)
  | .objects => m.readAreaChecked mode .objects o
  | .unusable => return mode.missing
  | .inputOutput => m.readAreaChecked mode .inputOutput o
  | .highRam => m.readAreaChecked mode .highRam o
  | .enable => m.readAreaChecked mode .enable o
termination_by a.toNat
decreasing_by exact Region.toNat_sub_lt h

variable {m : MemoryMap} (h : m.WellFormed)
include h

/-- The bank that is selected in an area without switched banks is there. -/
theorem WellFormed.selected_lt {area : Area} (hs : area.isSwitched = false) :
    (m.window area).selected < (m.window area).banks.size := by
  have hf := h.fits area
  have hn : area ≠ .switchRom := by
    rintro rfl
    cases hs
  rw [hf.selected hs, hf.count hn]
  cases area with
  | switchRom | videoRam | switchWork => cases hs
  | _ => exact Nat.one_pos

theorem readAreaChecked_eq (d : Disk) (mode : ReadMode) {a : UInt16} {area : Area} {o : Nat}
    (hp : Place.of a = .banked area o) :
    m.readAreaChecked mode area o = .ok (m.readAs d mode a) := by
  have ho := Place.lt_bankSize hp
  unfold readAreaChecked readAs cell?
  rw [hp]
  dsimp only
  cases hb : (m.window area).banks[(m.window area).selected]? with
  | none =>
    have hle : ¬ (m.window area).selected < (m.window area).banks.size :=
      Nat.not_lt.2 (Array.getElem?_eq_none_iff.1 hb)
    have hs : area.isSwitched = true := by
      rw [← Bool.not_eq_false]
      exact fun hs => hle (h.selected_lt hs)
    rw [if_neg hle, if_pos hs]
  | some b =>
    obtain ⟨hlt, -⟩ := Array.getElem?_eq_some_iff.1 hb
    obtain ⟨v, hv⟩ := Option.isSome_iff_exists.1 (h.get?_isSome hlt ho)
    have hg := hv
    rw [Window.get?_of_bank hb] at hg
    rw [if_pos hlt]
    simp only [isLocked, Window.isLocked, hb, get, hv, hg]
    split <;> rfl

/-- No read is in breach. -/
theorem readChecked_eq (d : Disk) (mode : ReadMode) (a : UInt16) :
    m.readChecked d mode a = .ok (m.readAs d mode a) := by
  rw [readChecked, Region.offsetChecked_eq]
  dsimp only [bind, Except.bind, pure, Except.pure]
  cases hr : Region.of a
  case echo =>
    have he : m.readAs d mode a = m.readAs d mode (a - 0x2000) := by
      rw [readAs, readAs, m.cell?_echo hr]
    dsimp only
    rw [dif_pos (Region.le_of_echo hr), he]
    exact readChecked_eq d mode (a - 0x2000)
  case cartridgeRam =>
    have hp : Place.of a = .cartridge (Region.offset a) := by rw [Place.of, hr]
    have ho : Region.offset a < CartridgeRam.bankSize := Place.lt_of_cartridge hp
    dsimp only
    rw [CartridgeRam.readChecked_eq h.volatile ho, readAs, cell?, hp]
    dsimp only
    unfold CartridgeRam.read
    split <;> rfl
  case unusable =>
    have hp : Place.of a = .unusable := by rw [Place.of, hr]
    rw [readAs, cell?, hp]
  all_goals exact readAreaChecked_eq h d mode (by rw [Place.of, hr])
termination_by a.toNat
decreasing_by exact Region.toNat_sub_lt (Region.le_of_echo hr)

omit h

/-! ### Peeks -/

/-- The bank that a region shows, if it is one with banks and shows one. -/
def shown? (m : MemoryMap) : Region → Option Bank
  | .fixedRom => m.fixedRom.banks[0]?
  | .switchRom => m.switchRom.banks[m.switchRom.selected]?
  | .videoRam => m.videoRam.banks[m.videoRam.selected]?
  | .fixedWork => m.fixedWork.banks[0]?
  | .switchWork => m.switchWork.banks[m.switchWork.selected]?
  | .objects => m.objects.banks[0]?
  | .inputOutput => m.inputOutput.banks[0]?
  | .highRam => m.highRam.banks[0]?
  | .enable => m.enable.banks[0]?
  | .cartridgeRam | .echo | .unusable => none

/-- Peek at the bank that a region shows. -/
def peekShownChecked (m : MemoryMap) (r : Region) (o : Nat) : Except Breach UInt8 :=
  match m.shown? r with
  | none => .ok 0
  | some b =>
    match b.get? o with
    | some v => .ok v
    | none => .error (.outOfRange o b.size)

/-- Peek; an echo address is read where it leads to. -/
def peekChecked (m : MemoryMap) (d : Disk) (a : UInt16) : Except Breach UInt8 := do
  let o ← Region.offsetChecked a
  match Region.of a with
  | .cartridgeRam =>
    let answer ← m.ram.readChecked d m.ramIndex o
    return answer.toOption.getD 0
  | .echo =>
    if h : 0x2000 ≤ a then peekChecked m d (a - 0x2000) else .error (.underflow a 0x2000)
  | r => m.peekShownChecked r o
termination_by a.toNat
decreasing_by exact Region.toNat_sub_lt h

section

include h

/-- A region without switched banks has one, which is selected. -/
theorem WellFormed.shown?_eq {a : UInt16} {area : Area} {o : Nat}
    (hp : Place.of a = .banked area o) (hn : Region.of a ≠ .echo) :
    m.shown? (Region.of a) = (m.window area).banks[(m.window area).selected]? := by
  have hz := (h.fits area).selected
  unfold Place.of at hp
  cases hr : Region.of a
  case echo => exact absurd hr hn
  case switchRom | videoRam | switchWork =>
    rw [hr] at hp
    cases hp
    rfl
  case cartridgeRam | unusable =>
    rw [hr] at hp
    cases hp
  all_goals
    rw [hr] at hp
    cases hp
    rw [hz rfl]
    rfl

theorem peekShownChecked_eq (d : Disk) {a : UInt16} {area : Area} {o : Nat}
    (hp : Place.of a = .banked area o) (hn : Region.of a ≠ .echo) :
    m.peekShownChecked (Region.of a) o = .ok (m.peek d a) := by
  -- A read that ignores locks finds the same bank, and stops where a peek answers 0.
  have hr := readAreaChecked_eq h d ⟨true, 0⟩ hp
  rw [readAs_ignoring] at hr
  unfold readAreaChecked at hr
  rw [peekShownChecked, h.shown?_eq hp hn, peek]
  dsimp only at hr
  cases hb : (m.window area).banks[(m.window area).selected]? with
  | none =>
    rw [hb] at hr
    dsimp only at hr ⊢
    split at hr
    · exact hr
    · cases hr
  | some b =>
    rw [hb] at hr
    simpa only [Bool.not_true, Bool.and_false, Bool.false_eq_true, if_false] using hr

/-- No peek is in breach. -/
theorem peekChecked_eq (d : Disk) (a : UInt16) : m.peekChecked d a = .ok (m.peek d a) := by
  rw [peekChecked, Region.offsetChecked_eq]
  dsimp only [bind, Except.bind, pure, Except.pure]
  cases hr : Region.of a
  case echo =>
    have he : m.peek d a = m.peek d (a - 0x2000) := by
      rw [peek, peek, lookup, lookup, m.cell?_echo hr]
    dsimp only
    rw [dif_pos (Region.le_of_echo hr), he]
    exact peekChecked_eq d (a - 0x2000)
  case cartridgeRam =>
    have hp : Place.of a = .cartridge (Region.offset a) := by rw [Place.of, hr]
    dsimp only
    rw [CartridgeRam.readChecked_eq h.volatile (Place.lt_of_cartridge hp), peek,
      m.lookup_of_cartridge d hp]
  case unusable =>
    have hp : Place.of a = .unusable := by rw [Place.of, hr]
    rw [peek, lookup, cell?, hp]
    rfl
  all_goals
    have he := peekShownChecked_eq h d (by rw [Place.of, hr]) (by rw [hr]; decide)
    rwa [hr] at he
termination_by a.toNat
decreasing_by exact Region.toNat_sub_lt (Region.le_of_echo hr)

end

/-! ### Writes -/

/-- The area that a write to a region changes. The regions that are sorted out before have none. -/
def writtenArea : Region → Except Breach Area
  | .videoRam => .ok .videoRam
  | .fixedWork => .ok .fixedWork
  | .switchWork => .ok .switchWork
  | .objects => .ok .objects
  | .inputOutput => .ok .inputOutput
  | .highRam => .ok .highRam
  | .enable => .ok .enable
  | r => .error (.unexpected r)

/-- The number of the bank that a write to a region goes to, and how many banks there are. -/
def writtenBank (m : MemoryMap) : Region → Nat × Nat
  | .videoRam => (m.videoRam.selected, m.videoRam.banks.size)
  | .switchWork => (m.switchWork.selected, m.switchWork.banks.size)
  | _ => (0, 1)

/-- Write to the bank of a region that is selected, if there is one and it is not locked. -/
def writeAreaChecked (m : MemoryMap) (d : Disk) (r : Region) (o : Nat) (v : UInt8) :
    Except Breach (MemoryMap × Disk) :=
  let (index, count) := m.writtenBank r
  if count ≤ index then .ok (m, d)
  else do
    let area ← writtenArea r
    match (m.window area).banks[index]? with
    | none => .error (.outOfRange index (m.window area).banks.size)
    | some b =>
      if b.locked then return (m, d)
      else if o < b.size then return (m.mapWindow area (·.set index o v), d)
      else .error (.outOfRange o b.size)

/-- Write a byte; ROM and unusable addresses drop it, and an echo address leads on. -/
def writeChecked (m : MemoryMap) (d : Disk) (a : UInt16) (v : UInt8) :
    Except Breach (MemoryMap × Disk) := do
  let o ← Region.offsetChecked a
  match Region.of a with
  | .fixedRom | .switchRom | .unusable => return (m, d)
  | .cartridgeRam =>
    match ← m.ram.writeChecked d m.ramIndex o v with
    | .ok (ram, d) => return ({ m with ram := ram }, d)
    | .error _ => return (m, d)
  | .echo =>
    if h : 0x2000 ≤ a then writeChecked m d (a - 0x2000) v else .error (.underflow a 0x2000)
  | r => m.writeAreaChecked d r o v
termination_by a.toNat
decreasing_by exact Region.toNat_sub_lt h

theorem isRom_of_writtenArea {r : Region} {area : Area} (hw : writtenArea r = .ok area) :
    area.isRom = false := by
  unfold writtenArea at hw
  split at hw <;> cases hw <;> rfl

/-- ROM is never written. -/
theorem write_of_isRom (m : MemoryMap) (d : Disk) (v : UInt8) {a : UInt16} {area : Area} {o : Nat}
    (hp : Place.of a = .banked area o) (hrom : area.isRom = true) : m.write d a v = (m, d) := by
  rw [write, cell?, hp]
  dsimp only
  split
  · rfl
  · next hc =>
    split at hc <;> cases hc
    rw [put, hrom, Bool.true_or, if_pos rfl]

include h

theorem WellFormed.writtenBank_eq {r : Region} {area : Area} (hw : writtenArea r = .ok area) :
    m.writtenBank r = ((m.window area).selected, (m.window area).banks.size) := by
  have hf := h.fits area
  unfold writtenArea at hw
  split at hw <;> cases hw
  -- An area without switched banks has one, which is selected.
  case h_2 | h_4 | h_5 | h_6 | h_7 => rw [hf.selected rfl, hf.count nofun]; rfl
  all_goals rfl

theorem writeAreaChecked_eq (d : Disk) (v : UInt8) {a : UInt16} {r : Region} {area : Area}
    {o : Nat} (hw : writtenArea r = .ok area) (hp : Place.of a = .banked area o) :
    m.writeAreaChecked d r o v = .ok (m.write d a v) := by
  have ho := Place.lt_bankSize hp
  unfold writeAreaChecked write cell?
  rw [h.writtenBank_eq hw, hp]
  dsimp only
  split
  · next hle => rw [if_neg (Nat.not_lt.2 hle)]
  · next hlt =>
    have hlt := Nat.lt_of_not_le hlt
    have hb := Array.getElem?_eq_getElem hlt
    have hs := (h.fits area).size _ _ hb
    rw [if_pos hlt, hw]
    simp only [bind, Except.bind, pure, Except.pure, hb, put, isRom_of_writtenArea hw,
      Window.isLocked, Bool.false_or, hs, if_pos ho]
    split <;> rfl

/-- No write is in breach. -/
theorem writeChecked_eq (d : Disk) (a : UInt16) (v : UInt8) :
    m.writeChecked d a v = .ok (m.write d a v) := by
  rw [writeChecked, Region.offsetChecked_eq]
  dsimp only [bind, Except.bind, pure, Except.pure]
  cases hr : Region.of a
  case echo =>
    have he : m.write d a v = m.write d (a - 0x2000) v := by
      rw [write, write, m.cell?_echo hr]
    dsimp only
    rw [dif_pos (Region.le_of_echo hr), he]
    exact writeChecked_eq d (a - 0x2000) v
  case cartridgeRam =>
    have hp : Place.of a = .cartridge (Region.offset a) := by rw [Place.of, hr]
    have ho : Region.offset a < CartridgeRam.bankSize := Place.lt_of_cartridge hp
    dsimp only
    rw [CartridgeRam.writeChecked_eq h.volatile ho, write, cell?, hp]
    dsimp only
    unfold CartridgeRam.write
    by_cases hi : m.ramIndex < m.ram.bankCount
    · rw [if_pos hi, if_pos hi]
      rfl
    · rw [if_neg hi, if_neg hi]
  case fixedRom | switchRom =>
    have hrom := m.write_of_isRom d v (by rw [Place.of, hr]) rfl
    exact congrArg _ hrom.symm
  case unusable =>
    have hp : Place.of a = .unusable := by rw [Place.of, hr]
    rw [write, cell?, hp]
  all_goals exact writeAreaChecked_eq h d v rfl (by rw [Place.of, hr])
termination_by a.toNat
decreasing_by exact Region.toNat_sub_lt (Region.le_of_echo hr)

end MemoryMap

/-! ### Layout -/

/-- The sizes of the banks of a window. -/
def Window.sizes (w : Window) : List Nat := w.banks.toList.map Bank.size

/-- The banks there are, with their sizes and locks. -/
structure MemoryMap.Layout (m : MemoryMap) : Prop where
  fixedRom : m.fixedRom.sizes = [0x4000]
  switchRom : ∀ size ∈ m.switchRom.sizes, size = 0x4000
  videoRam : m.videoRam.sizes = [0x2000, 0x2000]
  fixedWork : m.fixedWork.sizes = [0x1000]
  switchWork : m.switchWork.sizes = List.replicate 7 0x1000
  objects : m.objects.sizes = [0xA0]
  inputOutput : m.inputOutput.sizes = [0x80]
  highRam : m.highRam.sizes = [0x7F]
  enable : m.enable.sizes = [1]
  /-- Cartridge RAM that is in memory holds its banks and nothing else. -/
  volatile : ∀ data n, m.ram = .volatile data n → data.size = n * 0x2000
  /-- The banks of video RAM are locked together. -/
  together : ∀ b ∈ m.videoRam.banks, ∀ b' ∈ m.videoRam.banks, b.locked = b'.locked
  /-- No bank is locked outside video RAM and object attributes. -/
  unlocked : ∀ area, area ≠ .videoRam → area ≠ .objects →
    ∀ b ∈ (m.window area).banks, b.locked = false

namespace Window.Fits

variable {w : Window} {area : Area} (h : w.Fits area)
include h

theorem eq_bankSize {size : Nat} (hs : size ∈ w.sizes) : size = area.bankSize := by
  obtain ⟨b, hb, rfl⟩ := List.mem_map.1 hs
  obtain ⟨i, hi⟩ := Array.getElem?_of_mem (Array.mem_toList_iff.1 hb)
  exact h.size i b hi

theorem sizes_eq (hn : area ≠ .switchRom) :
    w.sizes = List.replicate area.bankCount area.bankSize := by
  refine List.eq_replicate_iff.2 ⟨?_, fun size hs => h.eq_bankSize hs⟩
  rw [Window.sizes, List.length_map, Array.length_toList, h.count hn]

theorem locked_eq {b : Bank} (hb : b ∈ w.banks) :
    b.locked = (area.isLockable && w.isLocked 0) := by
  obtain ⟨i, hi⟩ := Array.getElem?_of_mem hb
  exact h.locked i b hi

end Window.Fits

namespace MemoryMap

theorem WellFormed.layout {m : MemoryMap} (h : m.WellFormed) : m.Layout where
  fixedRom := (h.fits .fixedRom).sizes_eq nofun
  switchRom _ hs := (h.fits .switchRom).eq_bankSize hs
  videoRam := (h.fits .videoRam).sizes_eq nofun
  fixedWork := (h.fits .fixedWork).sizes_eq nofun
  switchWork := (h.fits .switchWork).sizes_eq nofun
  objects := (h.fits .objects).sizes_eq nofun
  inputOutput := (h.fits .inputOutput).sizes_eq nofun
  highRam := (h.fits .highRam).sizes_eq nofun
  enable := (h.fits .enable).sizes_eq nofun
  volatile := h.volatile
  together b hb b' hb' :=
    ((h.fits .videoRam).locked_eq hb).trans ((h.fits .videoRam).locked_eq hb').symm
  unlocked area hv ho b hb := by
    rw [(h.fits area).locked_eq hb]
    cases area with
    | videoRam => exact absurd rfl hv
    | objects => exact absurd rfl ho
    | _ => rfl

/-! ### Histories -/

/-- The memory map that a history of changes, newest first, makes of an empty one. Each change finds
a disk of its own. -/
def afterAll : List (Disk × Change) → MemoryMap
  | [] => {}
  | (d, op) :: older => (Board.apply ⟨afterAll older, d⟩ op).map

theorem wellFormed_afterAll (history : List (Disk × Change)) : (afterAll history).WellFormed := by
  induction history with
  | nil => exact .empty
  | cons e older ih => exact Board.wellFormed_apply (b := ⟨afterAll older, e.1⟩) ih e.2

/-- After any history of changes, the memory map has its layout, and no access is in breach, at any
address and on any disk. -/
theorem layout_afterAll (history : List (Disk × Change)) :
    let m := afterAll history
    m.Layout ∧ ∀ (d : Disk) (a : UInt16) (v : UInt8),
      m.readChecked d ⟨false, 0xFF⟩ a = .ok (m.read d a) ∧
      m.readChecked d ⟨true, 0xFF⟩ a = .ok (m.readUnlocked d a) ∧
      m.peekChecked d a = .ok (m.peek d a) ∧
      m.writeChecked d a v = .ok (m.write d a v) := by
  intro m
  have h : m.WellFormed := wellFormed_afterAll history
  refine ⟨h.layout, fun d a v => ⟨?_, ?_, peekChecked_eq h d a, writeChecked_eq h d a v⟩⟩
  · rw [readChecked_eq h, ← readAs_honouring]
    rfl
  · rw [readChecked_eq h, readAs_ignoring]
    rfl

end MemoryMap

end DotMatrix
