import DotMatrix.Proofs.Memory.Checked
import DotMatrix.Proofs.Memory.Configuration
import DotMatrix.Proofs.Memory.FlatStore

/-!
# Three ways to read

A memory map is read by the processor, which honours locks, without regard to locks, and for
diagnostics. The last way has a decoder of addresses of its own.

* `MemoryMap.backing?` is the byte behind an address, and `MemoryMap.Unbacked` says why there is
  none. All three ways answer with that byte, and differ where it is missing or locked.
* `MemoryMap.LocksAs` says which areas are locked. Every change keeps it in step with the setup
  (`LocksAs.apply`), so every history does (`locksAs_afterAll`).
* `MapUse` is a change or a read of a memory map. A read from a save file moves the cursor of the
  file, and `MapInUse` is a memory map with that cursor. `MapInUse.map_after` says that the memory
  map is what the changes alone make of it.
* `reads_agree` puts them together.
-/

namespace DotMatrix

theorem Place.of_eq_unusable_iff {a : UInt16} :
    Place.of a = .unusable ↔ 0xFEA0 ≤ a.toNat ∧ a.toNat < 0xFF00 := by
  have hu : (0xE000 ≤ a.toNat ∧ a.toNat < 0xFE00) ∧ unecho a + 0x2000 = a.toNat ∨
      ¬ (0xE000 ≤ a.toNat ∧ a.toNat < 0xFE00) ∧ unecho a = a.toNat := by
    unfold unecho
    split <;> omega
  rw [of_eq]
  generalize unecho a = n at hu
  fun_cases ofNat n <;> simp only [reduceCtorEq, true_iff, false_iff] <;> omega

theorem Window.get?_eq_none_of_le {w : Window} {i : Nat} (h : w.banks.size ≤ i) (o : Nat) :
    w.get? i o = none := by
  rw [get?, Array.getElem?_eq_none h]
  rfl

namespace MemoryMap

variable {m : MemoryMap}

/-! ### The byte behind an address -/

/-- The byte behind an address, if there is one, whatever the locks. -/
def backing? (m : MemoryMap) (d : Disk) (a : UInt16) : Option UInt8 :=
  match Place.ofNat (unecho a) with
  | .banked area o => (m.window area).get? (m.window area).selected o
  | .cartridge o => (m.ram.read d m.ramIndex o).toOption
  | .unusable => none

/-- Why there is no byte behind an address. -/
inductive Unbacked (m : MemoryMap) (d : Disk) (a : UInt16) : Prop
  /-- Nothing is mapped there. -/
  | unusable (h₁ : 0xFEA0 ≤ a.toNat) (h₂ : a.toNat < 0xFF00)
  /-- The selected bank is not there. -/
  | noBank (area : Area) (o : Nat) (hp : Place.of a = .banked area o)
      (h : (m.window area).banks.size ≤ (m.window area).selected)
  /-- The cartridge RAM fails. -/
  | noRam (o : Nat) (e : Miss) (hp : Place.of a = .cartridge o)
      (h : m.ram.read d m.ramIndex o = .error e)

theorem backing?_of_banked {a : UInt16} {area : Area} {o : Nat}
    (hp : Place.of a = .banked area o) (d : Disk) :
    m.backing? d a = (m.window area).get? (m.window area).selected o := by
  rw [backing?, ← Place.of_eq, hp]

theorem backing?_of_cartridge {a : UInt16} {o : Nat} (hp : Place.of a = .cartridge o) (d : Disk) :
    m.backing? d a = (m.ram.read d m.ramIndex o).toOption := by
  rw [backing?, ← Place.of_eq, hp]

theorem backing?_of_unusable {a : UInt16} (hp : Place.of a = .unusable) (d : Disk) :
    m.backing? d a = none := by
  rw [backing?, ← Place.of_eq, hp]

/-- A lookup finds the byte behind an address. -/
theorem toOption_lookup (m : MemoryMap) (d : Disk) (a : UInt16) :
    (m.lookup d a).toOption = m.backing? d a := by
  cases hp : Place.of a with
  | unusable =>
    rw [backing?_of_unusable hp, lookup, cell?, hp]
    rfl
  | banked area o =>
    rw [backing?_of_banked hp, lookup, cell?, hp]
    dsimp only
    split
    · simp only [bind, Except.bind, get]
      cases (m.window area).get? (m.window area).selected o <;> rfl
    · next hs => exact (Window.get?_eq_none_of_le (Nat.le_of_not_lt hs) o).symm
  | cartridge o => rw [m.lookup_of_cartridge d hp, backing?_of_cartridge hp]

theorem peek_eq (m : MemoryMap) (d : Disk) (a : UInt16) :
    m.peek d a = (m.backing? d a).getD 0 := by
  rw [peek, toOption_lookup]

theorem readUnlocked_eq (m : MemoryMap) (d : Disk) (a : UInt16) :
    m.readUnlocked d a = (m.backing? d a).getD openBus := by
  rw [readUnlocked, toOption_lookup]

/-- Cartridge RAM is never locked. -/
theorem read_of_cartridge {a : UInt16} {o : Nat} (hp : Place.of a = .cartridge o) (d : Disk) :
    m.read d a = m.readUnlocked d a := by
  rw [read, readUnlocked, lookup, cell?, hp]
  dsimp only
  by_cases hi : m.ramIndex < m.ram.bankCount
  · rw [if_pos hi]
    rfl
  · rw [if_neg hi]
    rfl

/-- Without a byte behind the address it does not matter whether it is locked. -/
theorem read_of_backing?_none {d : Disk} {a : UInt16} (h : m.backing? d a = none) :
    m.read d a = openBus := by
  rw [← toOption_lookup] at h
  unfold lookup at h
  unfold read
  cases hc : m.cell? a with
  | error e => rfl
  | ok c =>
    rw [hc] at h
    have h : (m.get d c).toOption = none := h
    dsimp only
    rw [h, Option.getD_none, ite_self]

/-- Exactly the three reasons leave an address without a byte. -/
theorem WellFormed.backing?_eq_none_iff (h : m.WellFormed) (d : Disk) (a : UInt16) :
    m.backing? d a = none ↔ m.Unbacked d a := by
  constructor
  · intro hn
    cases hp : Place.of a with
    | unusable =>
      obtain ⟨h₁, h₂⟩ := Place.of_eq_unusable_iff.1 hp
      exact .unusable h₁ h₂
    | banked area o =>
      rw [backing?_of_banked hp] at hn
      refine .noBank area o hp (Nat.le_of_not_lt fun hs => ?_)
      have hb := h.get?_isSome hs (Place.lt_bankSize hp)
      rw [hn] at hb
      cases hb
    | cartridge o =>
      rw [backing?_of_cartridge hp] at hn
      cases hr : m.ram.read d m.ramIndex o with
      | error e => exact .noRam o e hp hr
      | ok v =>
        rw [hr] at hn
        cases hn
  · rintro (⟨h₁, h₂⟩ | ⟨area, o, hp, hs⟩ | ⟨o, e, hp, hr⟩)
    · exact backing?_of_unusable (Place.of_eq_unusable_iff.2 ⟨h₁, h₂⟩) d
    · rw [backing?_of_banked hp, Window.get?_eq_none_of_le hs]
    · rw [backing?_of_cartridge hp, hr]
      rfl

/-! ### Locks -/

/-- The banks of every area are locked as `locked` says. -/
def LocksAs (m : MemoryMap) (locked : Area → Bool) : Prop :=
  ∀ area i, i < (m.window area).banks.size → (m.window area).isLocked i = locked area

/-- Whether an address leads to a locked area. -/
def locksAt (locked : Area → Bool) (a : UInt16) : Bool :=
  match Place.of a with
  | .banked area _ => locked area
  | .cartridge _ | .unusable => false

/-- A lock is all that keeps the processor from what is read without regard to locks. -/
theorem LocksAs.read_eq {locked : Area → Bool} (h : m.LocksAs locked) (d : Disk) (a : UInt16) :
    m.read d a = if locksAt locked a then openBus else m.readUnlocked d a := by
  unfold locksAt
  cases hp : Place.of a with
  | unusable =>
    rw [read, readUnlocked, lookup, cell?, hp]
    rfl
  | cartridge o => exact read_of_cartridge hp d
  | banked area o =>
    rw [read, readUnlocked, lookup, cell_of_banked hp]
    by_cases hs : (m.window area).selected < (m.window area).banks.size
    · rw [if_pos hs]
      dsimp only [bind, Except.bind]
      rw [isLocked, h area _ hs]
    · rw [if_neg hs]
      exact (ite_self openBus).symm

namespace LocksAs

variable {s : Setup}

theorem mapWindow {locked locked' : Area → Bool} (h : m.LocksAs locked) (area : Area)
    (g : Window → Window)
    (hg : ∀ i, i < (g (m.window area)).banks.size →
      (g (m.window area)).isLocked i = locked' area)
    (hl : ∀ b, area ≠ b → locked' b = locked b) : (m.mapWindow area g).LocksAs locked' := by
  intro b i hi
  rw [window_mapWindow] at hi ⊢
  split
  · next e =>
    subst e
    rw [if_pos rfl] at hi
    exact hg i hi
  · next e =>
    rw [if_neg e] at hi
    rw [h b i hi, hl b e]

theorem select (h : m.LocksAs s.locked) (area : Area) (i : Nat) :
    (m.select area i).LocksAs s.locked :=
  h.mapWindow area (·.select i) (h area) fun _ _ => rfl

theorem setLocked (h : m.LocksAs s.locked) (area : Area) (l : Bool) :
    (m.setLocked area l).LocksAs (s.lock area l).locked := by
  refine h.mapWindow area (·.setLocked l) (fun i hi => ?_) fun b hb => if_neg hb
  rw [Window.size_banks_setLocked] at hi
  rw [Window.isLocked_setLocked, decide_eq_true hi, Bool.true_and]
  exact (if_pos rfl).symm

/-- A write keeps all locks. -/
theorem of_sameSetup {m' : MemoryMap} (h : m.LocksAs s.locked) (hm : m.SameSetup m') :
    m'.LocksAs s.locked := by
  intro area i hi
  rw [hm.count] at hi
  rw [hm.locked, h area i hi]

theorem loadFixedRom (h : m.LocksAs s.locked) (hs : s.Regular) (data : ByteArray) :
    (m.loadFixedRom data).LocksAs s.locked := by
  refine h.mapWindow .fixedRom (fun _ => ⟨#[{ data := data }], 0⟩) (fun i hi => ?_) fun _ _ => rfl
  obtain rfl : i = 0 := Nat.lt_one_iff.1 hi
  exact (hs.locked .fixedRom rfl).symm

theorem loadSwitchRom (h : m.LocksAs s.locked) (hs : s.Regular) (data : ByteArray) (n : Nat) :
    (m.loadSwitchRom data n).LocksAs s.locked := by
  refine h.mapWindow .switchRom
    (fun w => { w with banks := (Array.range n).map (romBank data) }) (fun i hi => ?_)
    fun _ _ => rfl
  have hn : i < n := by simpa using hi
  have hb : ((Array.range n).map (romBank data))[i]? = some (romBank data i) := by simp [hn]
  rw [Window.isLocked, hb, hs.locked .switchRom rfl]
  rfl

end LocksAs

end MemoryMap

/-- Cartridge RAM is set up without a change of any window. -/
theorem Board.window_attachRam (b : Board) (n : Nat) (battery : Bool) (path : Option String)
    (area : Area) : (b.attachRam n battery path).2.map.window area = b.map.window area := by
  unfold attachRam
  split
  · split
    · rfl
    · split <;> rfl
  · rfl

namespace MemoryMap

/-- Each change of a board locks what the change of the setup locks. -/
theorem LocksAs.apply {s : Setup} {b : Board} (h : b.map.LocksAs s.locked) (hs : s.Regular)
    (op : Change) : (b.apply op).map.LocksAs (s.apply op).locked := by
  cases op with
  | write a v => exact h.of_sameSetup (sameSetup_write b.map b.disk a v)
  | selectRom i => exact h.select .switchRom i
  | selectVideo i => exact h.select .videoRam i
  | selectWork i => exact h.select .switchWork i
  | selectRam i => exact h
  | lockVideo l => exact h.setLocked .videoRam l
  | lockObjects l => exact h.setLocked .objects l
  | loadFixedRom data hd => exact h.loadFixedRom hs data
  | loadSwitchRom data n => exact h.loadSwitchRom hs data n
  | attachRam n battery path =>
    intro area
    show ∀ i, i < ((b.attachRam n battery path).2.map.window area).banks.size →
      ((b.attachRam n battery path).2.map.window area).isLocked i = s.locked area
    rw [b.window_attachRam]
    exact h area
  | flush => exact h

/-- After any history of changes, the areas are locked that the history has left locked. -/
theorem locksAs_afterAll (history : List (Disk × Change)) :
    (afterAll history).LocksAs (Setup.after (history.map Prod.snd)).locked := by
  induction history with
  | nil =>
    intro area i _
    have hz := Window.isLocked_zeros area.bankCount area.bankSize i
    cases area <;> exact hz
  | cons e older ih => exact ih.apply (b := ⟨_, e.1⟩) (.after (older.map Prod.snd)) e.2

end MemoryMap

/-- Whether a region is locked under a setup: only video RAM and object attributes are. -/
def Setup.locksRegion (s : Setup) : Region → Bool
  | .videoRam => s.locked .videoRam
  | .objects => s.locked .objects
  | _ => false

theorem Setup.Regular.locksAt_eq {s : Setup} (hs : s.Regular) (a : UInt16) :
    MemoryMap.locksAt s.locked a = s.locksRegion (Region.of a) := by
  unfold MemoryMap.locksAt Place.of
  cases Region.of a
  case echo =>
    dsimp only
    by_cases ho : Region.offset a < 0x1000
    · rw [if_pos ho]
      exact hs.locked .fixedWork rfl
    · rw [if_neg ho]
      exact hs.locked .switchWork rfl
  case videoRam | objects | cartridgeRam | unusable => rfl
  all_goals exact hs.locked _ rfl

/-! ### Reads in a row -/

/-- The three ways to read. -/
inductive ReadPath
  | processor
  | unlocked
  | diagnostic
  deriving DecidableEq, Repr

/-- What a way to read answers. -/
def ReadPath.read (p : ReadPath) (m : MemoryMap) (d : Disk) (a : UInt16) : UInt8 :=
  match p with
  | processor => m.read d a
  | unlocked => m.readUnlocked d a
  | diagnostic => m.peek d a

/-- What a way to read answers where cartridge RAM fails. -/
def ReadPath.missing : ReadPath → UInt8
  | processor | unlocked => MemoryMap.openBus
  | diagnostic => 0

/-- Read the byte at the cursor of a file, and leave the cursor behind it. -/
def Disk.readOn (d : Disk) (h : Handle) (cursor : Nat) : Except DiskError UInt8 × Nat :=
  match d.byte h cursor with
  | .ok v => (.ok v, cursor + 1)
  | .error e => (.error e, cursor)

/-- Read a byte of cartridge RAM; in a save file, the cursor is put there first. -/
def CartridgeRam.readOn (ram : CartridgeRam) (d : Disk) (cursor index o : Nat) :
    Except Miss UInt8 × Nat :=
  if index < ram.bankCount then
    match ram with
    | persistent h _ _ =>
      let (answer, cursor) := d.readOn h (position index o)
      (answer.mapError fun e => .failed (.saveAccess (position index o) e), cursor)
    | none | volatile .. => (ram.get d index o, cursor)
  else (.error (.failed (ram.noSuchBank index)), cursor)

/-- Wherever the cursor was, the answer is the same. -/
theorem CartridgeRam.readOn_fst (ram : CartridgeRam) (d : Disk) (cursor index o : Nat) :
    (ram.readOn d cursor index o).1 = ram.read d index o := by
  unfold readOn read
  split
  · cases ram with
    | persistent h path n =>
      simp only [get, Disk.readOn]
      cases d.byte h (position index o) <;> rfl
    | _ => rfl
  · rfl

/-- A memory map in use, and where the cursor of its save file is. -/
structure MapInUse where
  map : MemoryMap := {}
  cursor : Nat := 0

/-- What is done with a memory map. -/
inductive MapUse
  /-- A change, which finds a disk and leaves the cursor somewhere. -/
  | change (d : Disk) (op : Change) (cursor : Nat)
  | read (d : Disk) (p : ReadPath) (a : UInt16)

/-- The change that a use makes, if it makes one. -/
def MapUse.change? : MapUse → Option (Disk × Change)
  | change d op _ => some (d, op)
  | read .. => none

namespace MapInUse

/-- Read, moving the cursor. -/
def read (u : MapInUse) (d : Disk) (p : ReadPath) (a : UInt16) : UInt8 × MapInUse :=
  match Place.of a with
  | .cartridge o =>
    let (answer, cursor) := u.map.ram.readOn d u.cursor u.map.ramIndex o
    (answer.toOption.getD p.missing, { u with cursor := cursor })
  | .banked .. | .unusable => (p.read u.map d a, u)

/-- Do something with a memory map. -/
def apply (u : MapInUse) : MapUse → MapInUse
  | .change d op cursor => ⟨(Board.apply ⟨u.map, d⟩ op).map, cursor⟩
  | .read d p a => (u.read d p a).2

/-- What uses, newest first, leave of an empty memory map. -/
def after : List MapUse → MapInUse
  | [] => {}
  | use :: older => (after older).apply use

theorem map_read (u : MapInUse) (d : Disk) (p : ReadPath) (a : UInt16) :
    (u.read d p a).2.map = u.map := by
  unfold read
  split <;> rfl

/-- Reads between the changes leave nothing of the memory map changed. -/
theorem map_after (uses : List MapUse) :
    (after uses).map = MemoryMap.afterAll (uses.filterMap MapUse.change?) := by
  induction uses with
  | nil => rfl
  | cons use older ih =>
    cases use with
    | change d op cursor =>
      show (Board.apply ⟨(after older).map, d⟩ op).map = _
      rw [ih]
      rfl
    | read d p a =>
      show ((after older).read d p a).2.map = _
      rw [map_read, ih]
      rfl

/-- What is read does not depend on the cursor. -/
theorem read_fst (u : MapInUse) (d : Disk) (p : ReadPath) (a : UInt16) :
    (u.read d p a).1 = p.read u.map d a := by
  unfold read
  cases hp : Place.of a with
  | banked area o => rfl
  | unusable => rfl
  | cartridge o =>
    dsimp only
    rw [CartridgeRam.readOn_fst, ← MemoryMap.backing?_of_cartridge hp]
    cases p with
    | processor => exact ((MemoryMap.read_of_cartridge hp d).trans (u.map.readUnlocked_eq d a)).symm
    | unlocked => exact (u.map.readUnlocked_eq d a).symm
    | diagnostic => exact (u.map.peek_eq d a).symm

end MapInUse

/-! ### The three ways together -/

namespace MemoryMap

theorem cell?_sub (m : MemoryMap) {a : UInt16} (h₁ : 0xE000 ≤ a.toNat) (h₂ : a.toNat < 0xFE00) :
    m.cell? a = m.cell? (a - 0x2000) := by
  rw [cell?, cell?, Place.of_eq, Place.of_eq, unecho_sub h₁ h₂]

/-- At an echo address every access is one at the address 0x2000 below it. -/
theorem access_echo (m : MemoryMap) (d : Disk) {a : UInt16} (h₁ : 0xE000 ≤ a.toNat)
    (h₂ : a.toNat < 0xFE00) :
    (∀ p : ReadPath, p.read m d a = p.read m d (a - 0x2000)) ∧
      ∀ v, m.write d a v = m.write d (a - 0x2000) v := by
  have hc := m.cell?_sub h₁ h₂
  have hl : m.lookup d a = m.lookup d (a - 0x2000) := by rw [lookup, lookup, hc]
  refine ⟨fun p => ?_, fun v => by rw [write, write, hc]⟩
  cases p with
  | processor =>
    show m.read d a = m.read d (a - 0x2000)
    rw [read, read, hc]
  | unlocked =>
    show m.readUnlocked d a = m.readUnlocked d (a - 0x2000)
    rw [readUnlocked, readUnlocked, hl]
  | diagnostic =>
    show m.peek d a = m.peek d (a - 0x2000)
    rw [peek, peek, hl]

end MemoryMap

/-- However a memory map has been used, on whatever disks, the ways to read agree at every address.
They answer with the byte behind it, and where there is none, with an open bus or, for diagnostics,
with zero. A lock of video RAM or object attributes, and nothing else, hides the byte from the
processor. An echo address is read and written as the address 0x2000 below it. Both decoders
come to these answers without a breach, and no read changes the answer of a later one. -/
theorem reads_agree (uses : List MapUse) (d : Disk) (a : UInt16) :
    let u := MapInUse.after uses
    let m := u.map
    let history := uses.filterMap MapUse.change?
    (match m.backing? d a with
      | some v => m.peek d a = v ∧ m.readUnlocked d a = v
      | none => m.peek d a = 0x00 ∧ m.readUnlocked d a = 0xFF ∧ m.read d a = 0xFF) ∧
    (m.backing? d a = none ↔ m.Unbacked d a) ∧
    (m.read d a =
      if (Setup.after (history.map Prod.snd)).locksRegion (Region.of a) then 0xFF
      else m.readUnlocked d a) ∧
    (0xE000 ≤ a.toNat → a.toNat < 0xFE00 →
      (∀ p : ReadPath, p.read m d a = p.read m d (a - 0x2000)) ∧
      ∀ v, m.write d a v = m.write d (a - 0x2000) v) ∧
    (m.readChecked d ⟨false, 0xFF⟩ a = .ok (m.read d a) ∧
      m.readChecked d ⟨true, 0xFF⟩ a = .ok (m.readUnlocked d a) ∧
      m.peekChecked d a = .ok (m.peek d a)) ∧
    m = MemoryMap.afterAll history ∧
    ∀ p : ReadPath, (u.read d p a).1 = p.read m d a := by
  intro u m history
  have hm : m = MemoryMap.afterAll history := MapInUse.map_after uses
  have hw : m.WellFormed := hm ▸ MemoryMap.wellFormed_afterAll history
  have hl : m.LocksAs (Setup.after (history.map Prod.snd)).locked :=
    hm ▸ MemoryMap.locksAs_afterAll history
  refine ⟨?_, hw.backing?_eq_none_iff d a, ?_, m.access_echo d,
    ⟨?_, ?_, MemoryMap.peekChecked_eq hw d a⟩, hm, fun p => u.read_fst d p a⟩
  · rw [m.peek_eq, m.readUnlocked_eq]
    cases hb : m.backing? d a with
    | some v => exact ⟨rfl, rfl⟩
    | none => exact ⟨rfl, rfl, MemoryMap.read_of_backing?_none hb⟩
  · rw [hl.read_eq, (Setup.Regular.after _).locksAt_eq]
    rfl
  · rw [MemoryMap.readChecked_eq hw]
    exact congrArg _ (m.readAs_honouring d a)
  · rw [MemoryMap.readChecked_eq hw, MemoryMap.readAs_ignoring]
    rfl

/-- With video RAM locked and its second bank shown, the processor sees none of it, and the echo of
work RAM still shows the bank that is selected there. -/
theorem reads_agree_locked :
    let m := (MapInUse.after [.read {} .processor 0xA000, .change {} (.write 0xD005 7) 0,
      .change {} (.selectWork 2) 0, .change {} (.selectVideo 1) 0,
      .change {} (.lockVideo true) 0]).map
    m.read {} 0x9000 = 0xFF ∧ m.peek {} 0xF005 = m.peek {} 0xD005 :=
  ⟨(reads_agree _ {} 0x9000).2.2.1.trans (if_pos (by decide)),
    ((reads_agree _ {} 0xF005).2.2.2.1 (by decide) (by decide)).1 .diagnostic⟩

end DotMatrix
