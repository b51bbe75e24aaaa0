import DotMatrix.Proofs.Cartridge.Load

/-!
# The ROM that a load leaves

A load copies the banks that the header counts from the ROM file into the memory map, or names the
first bank that the file does not hold. The file is numbered from its fixed bank on, the switchable
banks from the one after it.

* `c.Opens b b' k` says that `c` gets its RAM and finds its ROM file. `Opens.load_of_le` and
  `Opens.load_of_lt` are the two ways that a load then goes.
* `m.ShowsRom rom banks` says what the addresses of the ROM read, whichever bank is selected, and
  `showsRom_copyRom` that they do after a copy.
* `readBanks_eq_error` finds the bank that the error names; `copyRom_congr` says that the bytes past
  the banks do not matter.
-/

namespace DotMatrix

/-! ### Bytes up to a bound -/

namespace Bytes

variable {a b : ByteArray} {n : Nat}

/-- Arrays that agree below a bound have the same size, or both reach the bound. -/
theorem min_size_of_agree (h : ∀ i < n, get? a i = get? b i) : min n a.size = min n b.size := by
  have hi (i : Nat) (hn : i < n) : a.size ≤ i ↔ b.size ≤ i := by
    rw [← get?_eq_none_iff, ← get?_eq_none_iff, h i hn]
  have ha := hi a.size
  have hb := hi b.size
  omega

/-- Arrays that agree below a bound have the same pieces up to there. -/
theorem extract_of_agree (h : ∀ i < n, get? a i = get? b i) (i : Nat) :
    a.extract i n = b.extract i n := by
  apply ext_get?
  intro j
  rw [get?_extract, get?_extract]
  by_cases hj : i + j < n
  · rw [if_pos hj, if_pos hj, h _ hj]
  · rw [if_neg hj, if_neg hj]

end Bytes

/-! ### Files that are too short -/

namespace Cartridge

/-- The error of a ROM file of some size that does not hold all banks. It names the first bank that
is not there in full. -/
def truncation (size : Nat) : CartridgeError :=
  if size < romBankSize then .fixedBank .endOfFile
  else .switchBank (size / romBankSize) .endOfFile

variable {d : Disk} {k : Handle} {count : Nat}

theorem readBank_eq_error {i : Nat} (h : (d.bytes k).size < (i + 1) * romBankSize) :
    readBank d (.file k) i = .error .endOfFile := by
  rw [Nat.succ_mul] at h
  exact if_neg (Nat.not_le_of_lt h)

/-- The first switchable bank that cannot be read is the one that the file ends in. -/
theorem readBanks_eq_error (h0 : romBankSize ≤ (d.bytes k).size)
    (h : (d.bytes k).size < (count + 1) * romBankSize) :
    ((List.range count).mapM fun i =>
      (readBank d (.file k) (i + 1)).mapError (CartridgeError.switchBank (i + 1))) =
        .error (.switchBank ((d.bytes k).size / romBankSize) .endOfFile) := by
  induction count with
  | zero =>
    rw [Nat.zero_add, Nat.one_mul] at h
    exact absurd h0 (Nat.not_le_of_lt h)
  | succ n ih =>
    rw [List.range_succ, List.mapM_append]
    -- The file ends before the last bank, or in it.
    by_cases hn : (d.bytes k).size < (n + 1) * romBankSize
    · rw [ih hn]
      rfl
    · have hn := Nat.le_of_not_lt hn
      obtain ⟨bs, hbs⟩ := exists_readBanks hn
      have hdiv : (d.bytes k).size / romBankSize = n + 1 := Nat.div_eq_of_lt_le hn h
      rw [hbs, List.mapM_cons, readBank_eq_error h, hdiv]
      rfl

theorem readRom_eq_error (h : (d.bytes k).size < (count + 1) * romBankSize) :
    readRom d (.file k) count = .error (truncation (d.bytes k).size) := by
  have hfirst : (0 + 1) * romBankSize = romBankSize := by rw [Nat.zero_add, Nat.one_mul]
  by_cases h0 : (d.bytes k).size < romBankSize
  · rw [readRom, readBank_eq_error (hfirst.symm ▸ h0), truncation, if_pos h0]
    rfl
  · have h0 := Nat.le_of_not_lt h0
    obtain ⟨fixed, hf⟩ : ∃ fixed, readBank d (.file k) 0 = .ok fixed :=
      ⟨_, readBank_eq_ok.2 ⟨hfirst.symm ▸ h0, rfl⟩⟩
    rw [readRom, hf, readBanks_eq_error h0 h, truncation, if_neg (Nat.not_lt_of_le h0)]
    rfl

end Cartridge

/-! ### What the addresses of the ROM read -/

namespace MemoryMap

/-- The memory map with the ROM of a file: its fixed bank and `count` banks after it, the first of
which is selected. -/
def copyRom (m : MemoryMap) (rom : ByteArray) (count : Nat) : MemoryMap :=
  ((m.loadFixedRom (rom.extract 0 0x4000)).loadSwitchRom
    (rom.extract 0x4000 ((count + 1) * 0x4000)) count).select .switchRom 0

/-- A memory map shows a ROM of `banks` banks. The fixed addresses read the first bank, and the
switched ones the bank after the one whose number is selected, or nothing if there is none. -/
structure ShowsRom (m : MemoryMap) (rom : ByteArray) (banks : Nat) : Prop where
  bankCount : m.switchRom.banks.size = banks - 1
  selected : m.switchRom.selected = 0
  fixed : ∀ (d : Disk) (a : UInt16), a.toNat < 0x4000 →
    Bytes.get? rom a.toNat = some (m.read d a)
  switched : ∀ i < banks - 1, ∀ (d : Disk) (a : UInt16), 0x4000 ≤ a.toNat → a.toNat < 0x8000 →
    Bytes.get? rom ((i + 1) * 0x4000 + (a.toNat - 0x4000)) =
      some ((m.select .switchRom i).read d a)
  absent : ∀ i, banks - 1 ≤ i → ∀ (d : Disk) (a : UInt16), 0x4000 ≤ a.toNat → a.toNat < 0x8000 →
    (m.select .switchRom i).read d a = 0xFF

variable {m : MemoryMap} {rom rom' : ByteArray} {count : Nat}

theorem HoldsRom.get?_eq_read_fixed (h : m.HoldsRom rom count) (hs : m.fixedRom.selected = 0)
    (hl : m.fixedRom.isLocked 0 = false) {a : UInt16} (ha : a.toNat < 0x4000) (d : Disk) :
    Bytes.get? rom a.toNat = some (m.read d a) := by
  have hsize := h.size
  obtain ⟨v, hv⟩ := Bytes.exists_get? (show a.toNat < rom.size by omega)
  have hw : m.window .fixedRom = m.fixedRom := rfl
  rw [hv, read_of_banked (Place.of_fixedRom ha) (by rw [hw, hs, hl]) _ d]
  rw [hw, hs, h.fixed _ ha, hv]

theorem HoldsRom.get?_eq_read_switched (h : m.HoldsRom rom count) {i : Nat} (hi : i < count)
    (hl : m.switchRom.isLocked i = false) {a : UInt16} (ha : 0x4000 ≤ a.toNat)
    (ha' : a.toNat < 0x8000) (d : Disk) :
    Bytes.get? rom ((i + 1) * 0x4000 + (a.toNat - 0x4000)) =
      some ((m.select .switchRom i).read d a) := by
  have hsize := h.size
  obtain ⟨v, hv⟩ :=
    Bytes.exists_get? (show (i + 1) * 0x4000 + (a.toNat - 0x4000) < rom.size by omega)
  have hw : m.switchRom.get? i (a.toNat - 0x4000) = some v :=
    (h.switched i hi _ (by omega)).trans hv
  -- The window of the selection has the banks that it had.
  rw [hv, read_of_banked (m := m.select .switchRom i) (Place.of_switchRom ha ha') hl hw d]

/-- A bank that is not there reads as an open bus. -/
theorem read_select_of_le {i : Nat} (hi : m.switchRom.banks.size ≤ i) {a : UInt16}
    (ha : 0x4000 ≤ a.toNat) (ha' : a.toNat < 0x8000) (d : Disk) :
    (m.select .switchRom i).read d a = openBus := by
  have hn : ¬ ((m.select .switchRom i).window .switchRom).selected <
      ((m.select .switchRom i).window .switchRom).banks.size := Nat.not_lt_of_le hi
  rw [read, cell_of_banked (Place.of_switchRom ha ha'), if_neg hn]

/-- A ROM that was copied is shown, whatever the memory map was. -/
theorem showsRom_copyRom (m : MemoryMap) (hs : (count + 1) * 0x4000 ≤ rom.size) :
    (m.copyRom rom count).ShowsRom rom (count + 1) := by
  have hrom : (m.copyRom rom count).HoldsRom rom count := holdsRom_load m hs
  have hlocked (i : Nat) : (m.copyRom rom count).switchRom.isLocked i = false := by
    rw [copyRom, switchRom_load]
    refine isLocked_of_banks (fun b hb => ?_) i
    obtain ⟨n, -, rfl⟩ := Array.mem_map.1 hb
    rfl
  constructor
  case bankCount => exact hrom.bankCount
  case selected => rfl
  case fixed => exact fun d a ha => hrom.get?_eq_read_fixed rfl rfl ha d
  case switched => exact fun i hi d a ha ha' => hrom.get?_eq_read_switched hi (hlocked i) ha ha' d
  case absent =>
    exact fun i hi d a ha ha' => read_select_of_le (hrom.bankCount.trans_le hi) ha ha' d

/-- The bytes of a file past the banks do not matter. -/
theorem copyRom_congr (m : MemoryMap)
    (h : ∀ i < (count + 1) * 0x4000, Bytes.get? rom i = Bytes.get? rom' i) :
    m.copyRom rom count = m.copyRom rom' count := by
  have hfixed : rom.extract 0 0x4000 = rom'.extract 0 0x4000 := by
    apply Bytes.extract_of_agree
    intro i hi
    apply h
    omega
  rw [copyRom, copyRom, hfixed, Bytes.extract_of_agree h]

end MemoryMap

/-! ### Loading -/

/-- The RAM that is set up has the banks it should have, and lives in a save file if there is a
battery for it and it has banks. -/
theorem Board.ram_of_attachRam {b b' : Board} {banks : Nat} {battery : Bool}
    {path : Option String} (h : b.attachRam banks battery path = (.ok (), b')) :
    b'.map.ram.bankCount = banks ∧ b'.map.ram.isPersistent = (battery && banks != 0) := by
  unfold attachRam at h
  cases hb : battery && banks != 0 with
  | false =>
    rw [hb, if_neg Bool.false_ne_true] at h
    cases h
    show (CartridgeRam.ofBanks banks).bankCount = banks ∧
      (CartridgeRam.ofBanks banks).isPersistent = false
    unfold CartridgeRam.ofBanks
    by_cases h0 : banks = 0
    · rw [if_pos h0]
      exact ⟨h0.symm, rfl⟩
    · rw [if_neg h0]
      exact ⟨rfl, rfl⟩
  | true =>
    have h0 : banks ≠ 0 := by
      rintro rfl
      simp at hb
    rw [hb, if_pos rfl] at h
    split at h
    · cases h
    · split at h <;> cases h
      next hs =>
      obtain ⟨k, rfl, -⟩ := CartridgeRam.openSave_spec hs h0
      exact ⟨rfl, rfl⟩

namespace Cartridge

/-- A cartridge gets its RAM, which leaves the board `b'`, and finds its ROM file there. -/
structure Opens (c : Cartridge) (b b' : Board) (k : Handle) : Prop where
  attached : b.attachRam c.ramBanks c.hasBattery c.savePath = (.ok (), b')
  opened : b'.disk.openRead c.romPath = .ok (.file k)

namespace Opens

variable {c : Cartridge} {b b' : Board} {k : Handle}

theorem rom_eq (h : c.Opens b b' k) : c.rom b'.disk = readRom b'.disk (.file k) c.switchBanks := by
  rw [rom, h.opened]
  rfl

/-- A load copies the ROM if the file has all banks. -/
theorem load_of_le (h : c.Opens b b' k)
    (hs : (c.switchBanks + 1) * romBankSize ≤ (b'.disk.bytes k).size) :
    c.load b = (.ok (), { b' with map := b'.map.copyRom (b'.disk.bytes k) c.switchBanks }) := by
  have hr : c.rom b'.disk = .ok _ := h.rom_eq.trans (readRom_eq_ok.2 ⟨hs, rfl⟩)
  rw [load, h.attached]
  dsimp only
  rw [hr]
  rfl

/-- A load fails if a bank is missing, and leaves the board with its new RAM. -/
theorem load_of_lt (h : c.Opens b b' k)
    (hs : (b'.disk.bytes k).size < (c.switchBanks + 1) * romBankSize) :
    c.load b = (.error (truncation (b'.disk.bytes k).size), b') := by
  have hr : c.rom b'.disk = .error _ := h.rom_eq.trans (readRom_eq_error hs)
  rw [load, h.attached]
  dsimp only
  rw [hr]

/-- The RAM is the one that was set up, whether the ROM could be copied or not. -/
theorem ram_load (h : c.Opens b b' k) : (c.load b).2.map.ram = b'.map.ram := by
  rcases Nat.lt_or_ge (b'.disk.bytes k).size ((c.switchBanks + 1) * romBankSize) with hs | hs
  · rw [h.load_of_lt hs]
  · rw [h.load_of_le hs]
    rfl

/-- A load depends on the bytes of the banks alone. -/
theorem load_congr (h : c.Opens b b' k) {b₁ b₁' : Board} {k₁ : Handle} (h₁ : c.Opens b₁ b₁' k₁)
    (hm : b₁'.map = b'.map)
    (hbytes : ∀ i < (c.switchBanks + 1) * romBankSize,
      Bytes.get? (b₁'.disk.bytes k₁) i = Bytes.get? (b'.disk.bytes k) i) :
    (c.load b₁).1 = (c.load b).1 ∧ (c.load b₁).2.map = (c.load b).2.map := by
  have hmin := Bytes.min_size_of_agree hbytes
  rcases Nat.lt_or_ge (b'.disk.bytes k).size ((c.switchBanks + 1) * romBankSize) with hs | hs
  · have hsize : (b₁'.disk.bytes k₁).size = (b'.disk.bytes k).size := by omega
    rw [h.load_of_lt hs, h₁.load_of_lt (hsize.trans_lt hs), hsize]
    exact ⟨rfl, hm⟩
  · rw [h.load_of_le hs, h₁.load_of_le (by omega), hm]
    exact ⟨rfl, MemoryMap.copyRom_congr _ hbytes⟩

/-- Setting up the RAM leaves a ROM file that has one name as it was. -/
theorem bytes_eq {d : Disk} {path : String} (h : c.Opens b b' k) (hc : ofFile d path = .ok c)
    {k₀ : Handle} (hk : b.disk.find c.romPath = .ok (.file k₀)) (hlt : k₀ < b.disk.contents.size)
    (hu : b.disk.HasOneName k₀) : b'.disk.bytes k = b.disk.bytes k₀ := by
  obtain ⟨rfl, hx, -, hsave, -⟩ := ofFile_spec hc
  obtain ⟨ram, -, he, hbytes⟩ := Board.attachRam_spec h.attached
  have hfind := Disk.find_of_extends he hk
  have hopened := Disk.find_of_openRead h.opened
  obtain rfl : k = k₀ := Node.file.inj (Except.ok.inj (hopened.symm.trans hfind))
  -- Only the save file changes, and its name has another extension.
  rcases hbytes k hlt with hsame | ⟨p, n, hp, hfp, -⟩
  · exact hsame
  · rw [hsave p hp] at hfp
    exact absurd hfp (find_savePath_ne hu hx hk)

end Opens

variable {c : Cartridge} {d : Disk} {path : String} {b b' : Board} {k : Handle}

/-- Loading copies the ROM file faithfully, and fails just if the file is too short. A cartridge
that was read from a file is loaded onto any board, where its RAM can be set up and its ROM file
found. The load succeeds if the file has the banks that the header counts, and else names the first
bank that is missing. The addresses of the ROM then read the bytes of the file. The RAM is that of
the cartridge either way, and the bytes of the file past its banks have no effect. The file is as it
was before the load, unless it has another name and so can be its own save file. -/
theorem load_copies_rom (hc : ofFile d path = .ok c) (h : c.Opens b b' k) :
    let rom := b'.disk.bytes k
    let banks := c.header.romBanks
    ((c.load b).1 =
      if banks * romBankSize ≤ rom.size then .ok () else .error (truncation rom.size)) ∧
    (banks * romBankSize ≤ rom.size → (c.load b).2.map.ShowsRom rom banks) ∧
    (c.load b).2.map.ram.bankCount = c.ramBanks ∧
    (c.load b).2.map.ram.isPersistent = (c.hasBattery && c.ramBanks != 0) ∧
    (∀ b₁ b₁' k₁, c.Opens b₁ b₁' k₁ → b₁'.map = b'.map →
      (∀ i < banks * romBankSize, Bytes.get? (b₁'.disk.bytes k₁) i = Bytes.get? rom i) →
      (c.load b₁).1 = (c.load b).1 ∧ (c.load b₁).2.map = (c.load b).2.map) ∧
    ∀ k₀, b.disk.find c.romPath = .ok (.file k₀) → k₀ < b.disk.contents.size →
      b.disk.HasOneName k₀ → rom = b.disk.bytes k₀ := by
  intro rom banks
  have hbanks : banks = c.switchBanks + 1 := by
    have h2 : 2 ≤ banks := (ofFile_spec hc).2.2.1
    show banks = banks - 1 + 1
    omega
  obtain ⟨hcount, hpersistent⟩ := Board.ram_of_attachRam h.attached
  rw [h.ram_load, hbanks]
  refine ⟨?_, fun hs => ?_, hcount, hpersistent, fun b₁ b₁' k₁ h₁ hm hb => h.load_congr h₁ hm hb,
    fun k₀ hk hlt hu => h.bytes_eq hc hk hlt hu⟩
  · by_cases hs : (c.switchBanks + 1) * romBankSize ≤ rom.size
    · rw [if_pos hs, h.load_of_le hs]
    · rw [if_neg hs, h.load_of_lt (Nat.lt_of_not_le hs)]
  · rw [h.load_of_le hs]
    exact MemoryMap.showsRom_copyRom _ hs

/-- The start of a ROM file. Its header counts four ROM banks, and one RAM bank with a battery. -/
def shortRom : ByteArray :=
  Bytes.set (Bytes.set (Bytes.set (Bytes.set (Bytes.zeros 0x150) 0x147 3) 0x148 1) 0x149 2) 0x14D
    0xE1

/-- The cartridge that such a ROM file makes. -/
def fourBanks : Cartridge := ⟨"a.gb", some "a.sav", ⟨"", .mbc1BatteryRam, 4, 1⟩⟩

theorem ofFile_shortRom : ofFile (Disk.putFile {} "a.gb" shortRom) "a.gb" = .ok fourBanks := by
  decide +kernel

theorem opens_fourBanks (file : ByteArray) :
    ∃ b', fourBanks.Opens { disk := Disk.putFile {} "a.gb" file } b' 0 ∧
      b'.disk.bytes 0 = file :=
  ⟨_, ⟨rfl, rfl⟩, rfl⟩

/-- Four banks from a file that has five bytes more, and from one that ends after two banks and a
byte. -/
theorem load_copies_rom_of_four :
    ∃ b b', ofFile (Disk.putFile {} "a.gb" shortRom) "a.gb" = .ok fourBanks ∧
      fourBanks.Opens b b' 0 ∧
      b'.disk.bytes 0 = Bytes.set (Bytes.zeros 0x10005) 0xC123 7 ∧
      (fourBanks.load b).1 = .ok () ∧
      ((fourBanks.load b).2.map.select .switchRom 2).read {} 0x4123 = 7 ∧
      ((fourBanks.load b).2.map.select .switchRom 3).read {} 0x4123 = 0xFF ∧
      (fourBanks.load b).2.map.ram.isPersistent = true ∧
      ∃ b₁ b₁', fourBanks.Opens b₁ b₁' 0 ∧ b₁'.disk.bytes 0 = Bytes.zeros 0x8001 ∧
        (fourBanks.load b₁).1 = .error (.switchBank 2 .endOfFile) := by
  obtain ⟨b', h, hfile⟩ := opens_fourBanks (Bytes.set (Bytes.zeros 0x10005) 0xC123 7)
  obtain ⟨b₁', h₁, hfile₁⟩ := opens_fourBanks (Bytes.zeros 0x8001)
  obtain ⟨hok, hrom, -, hpersistent, -⟩ := load_copies_rom ofFile_shortRom h
  obtain ⟨herror, -⟩ := load_copies_rom ofFile_shortRom h₁
  rw [hfile, Bytes.size_set, Bytes.size_zeros] at hok hrom
  rw [if_pos (by decide)] at hok
  rw [hfile₁, Bytes.size_zeros, if_neg (by decide)] at herror
  have hs := hrom (by decide)
  have hread := hs.switched 2 (by decide) {} 0x4123 (by decide) (by decide)
  rw [Bytes.get?_set, Bytes.size_zeros, if_pos (by decide)] at hread
  exact ⟨_, b', ofFile_shortRom, h, hfile, hok, (Option.some.inj hread).symm,
    hs.absent 3 (by decide) {} 0x4123 (by decide) (by decide), hpersistent, _, b₁', h₁, hfile₁,
    herror⟩

end Cartridge

end DotMatrix
