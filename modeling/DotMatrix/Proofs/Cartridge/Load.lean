import DotMatrix.Cartridge.Basic
import DotMatrix.Proofs.Disk.Lookup
import DotMatrix.Proofs.Memory.Configuration

/-!
# What loading a cartridge leaves

Loading sets up the RAM of a cartridge, which may make or resize its save file, and then copies the
ROM file into the memory map, bank by bank.

* `attachRam_spec` and `readRom_eq_ok` are the two parts, and `load_spec` and `exists_load` the
  whole.
* `m.HoldsRom file count` says that `m` holds the ROM of a file, and `m.Unswitched` that it shows
  the first bank of everything. Together they say what the ROM addresses read
  (`HoldsRom.get?_eq_read`).
* `find_savePath_ne` says that the save file is not the ROM file, unless one file has two names.
  `load_file` says that the ROM is loaded as it was before, but for that.
-/

namespace DotMatrix

/-! ### Save files -/

/-- Opening a save file finds the file that its path leads to, or makes a new one. No other file
changes, and every path leads where it led before. -/
theorem CartridgeRam.openSave_spec {path : String} {banks : Nat} {d d' : Disk} {ram : CartridgeRam}
    (h : openSave path banks d = (.ok ram, d')) (hb : banks ≠ 0) :
    ∃ k, ram = .persistent k path banks ∧ d'.Extends d ∧
      (k = d.contents.size ∨ d.find path = .ok (.file k)) ∧
      ∀ i < d.contents.size, d'.bytes i =
        if k = i then Bytes.resize (d.bytes i) (banks * bankSize) else d.bytes i := by
  rw [openSave, if_neg hb] at h
  split at h
  · cases h
  · next k d₁ ho =>
    split at h <;> cases h
    next hs =>
    obtain ⟨he, hsize, hk, hsame⟩ := Disk.openOrCreate_spec ho
    refine ⟨k, rfl, (Disk.extends_setLength hs).trans he, hk, fun i hi => ?_⟩
    rw [Disk.bytes_setLength hs (Nat.lt_of_lt_of_le hi hsize), hsame i hi]

/-- Setting up RAM changes the RAM of the memory map, and on the disk at most the save file. -/
theorem Board.attachRam_spec {b b' : Board} {banks : Nat} {battery : Bool} {path : Option String}
    (h : b.attachRam banks battery path = (.ok (), b')) :
    ∃ ram, b'.map = b.map.setRam ram ∧ b'.disk.Extends b.disk ∧
      ∀ i < b.disk.contents.size, b'.disk.bytes i = b.disk.bytes i ∨
        ∃ p n, path = some p ∧ b.disk.find p = .ok (.file i) ∧
          b'.disk.bytes i = Bytes.resize (b.disk.bytes i) n := by
  unfold attachRam at h
  split at h
  · next hb =>
    have h0 : banks ≠ 0 := by
      rintro rfl
      simp at hb
    split at h
    · cases h
    · next p =>
      split at h <;> cases h
      next hs =>
      obtain ⟨k, rfl, he, hk, hbytes⟩ := CartridgeRam.openSave_spec hs h0
      refine ⟨_, rfl, he, fun i hi => ?_⟩
      have hi' := hbytes i hi
      split at hi'
      · next hki =>
        subst hki
        refine .inr ⟨p, _, rfl, hk.resolve_left (Nat.ne_of_lt hi), hi'⟩
      · exact .inl hi'
  · cases h
    exact ⟨_, rfl, .refl _, fun _ _ => .inl rfl⟩

/-! ### Headers -/

/-- Every ROM has a switchable bank. -/
theorem Header.two_le_romBanks {bytes : HeaderBytes} {header : Header}
    (h : Header.ofBytes bytes = .ok header) : 2 ≤ header.romBanks := by
  unfold Header.ofBytes at h
  dsimp only at h
  split at h
  · cases h
  · obtain ⟨romBanks, hr, h⟩ := bind_eq_ok.1 h
    obtain ⟨ramBanks, -, h⟩ := bind_eq_ok.1 h
    cases h
    unfold romBanksOf at hr
    split at hr <;> cases hr
    rw [Nat.shiftLeft_eq]
    exact Nat.le_mul_of_pos_right 2 (Nat.two_pow_pos _)

/-- What is known of a cartridge and the file that it was read from. -/
theorem Cartridge.ofFile_spec {d : Disk} {path : String} {c : Cartridge}
    (h : ofFile d path = .ok c) :
    c.romPath = path ∧ hasRomExtension path = true ∧ 2 ≤ c.header.romBanks ∧
      (∀ p, c.savePath = some p → p = Path.withExtension path saveExtension) ∧
      ∀ k, d.find path = .ok (.file k) → Header.start + 80 ≤ (d.bytes k).size := by
  unfold ofFile at h
  dsimp only at h
  split at h
  · cases h
  · split at h
    · cases h
    · next hx =>
      obtain ⟨file, hf, h⟩ := bind_eq_ok.1 h
      obtain ⟨raw, hr, h⟩ := bind_eq_ok.1 h
      obtain ⟨header, hh, h⟩ := bind_eq_ok.1 h
      cases h
      refine ⟨rfl, by simpa using hx, Header.two_le_romBanks (mapError_eq_ok.1 hh), fun p hp => ?_,
        fun k hk => ?_⟩
      · dsimp only at hp
        split at hp
        · exact (Option.some.inj hp).symm
        · exact absurd hp (Option.some_ne_none p).symm
      · have hf := Disk.find_of_openRead (mapError_eq_ok.1 hf)
        obtain rfl : file = .file k := Except.ok.inj (hf.symm.trans hk)
        exact (Disk.read_eq_ok.1 (mapError_eq_ok.1 hr)).1

/-- The bytes that are read for a header are those of the file. -/
theorem Header.get?_extract (file : ByteArray) (i : Fin 80) :
    Bytes.get? (file.extract start (start + 80)) i = Bytes.get? file (start + i) := by
  rw [Bytes.get?_extract, if_pos (Nat.add_lt_add_left i.isLt _)]

/-- A cartridge is read from a file with a ROM file's name and a good header. -/
theorem Cartridge.ofFile_of_header {d : Disk} {path : String} {k : Handle} {header : Header}
    (hk : d.openRead path = .ok (.file k)) (hx : hasRomExtension path = true)
    (hs : Header.start + 80 ≤ (d.bytes k).size)
    (hh : Header.ofBytes
      (Vector.ofFn fun i => (Bytes.get? (d.bytes k) (Header.start + i)).getD 0) = .ok header) :
    ofFile d path =
      .ok ⟨path,
        if header.controller.hasBattery then some (Path.withExtension path saveExtension) else none,
        header⟩ := by
  have hf : (d.openRead path).mapError (CartridgeError.openRom path) = .ok (.file k) :=
    mapError_eq_ok.2 hk
  have hr : d.read (.file k) Header.start 80 =
      .ok ((d.bytes k).extract Header.start (Header.start + 80)) := Disk.read_eq_ok.2 ⟨hs, rfl⟩
  unfold ofFile
  rw [Disk.exists?_of_find (Disk.find_of_openRead hk), hx, hf]
  refine bind_eq_ok.2 ⟨_, rfl, bind_eq_ok.2 ⟨_, mapError_eq_ok.2 hr, ?_⟩⟩
  simp only [Header.get?_extract, hh]
  rfl

/-- The extension of a ROM file is not that of a save file. -/
theorem Cartridge.exists_extension {path : String} (h : hasRomExtension path = true) :
    ∃ ext, Path.extension? path = some ext ∧ ext ≠ [] ∧ saveExtension ≠ ext := by
  unfold hasRomExtension at h
  split at h
  · cases h
  · next ext hx =>
    refine ⟨ext, hx, ?_, ?_⟩ <;> rintro rfl <;> revert h <;> decide

/-- The save file of a ROM file that has one name is another file. -/
theorem Cartridge.find_savePath_ne {d : Disk} {path : String} {k : Handle} (hu : d.HasOneName k)
    (hx : hasRomExtension path = true) (hk : d.find path = .ok (.file k)) :
    d.find (Path.withExtension path saveExtension) ≠ .ok (.file k) := by
  intro hs
  obtain ⟨ext, hext, h0, hne⟩ := exists_extension hx
  obtain ⟨l, hl, hlk⟩ := Disk.find_eq_ok.1 hk
  obtain ⟨l', hl', hlk'⟩ := Disk.find_eq_ok.1 hs
  exact Disk.resolve_withExtension_ne (Disk.asksDirectory_of_find hk) hext h0 hne (by decide) hl hl'
    (hu _ _ hlk' hlk)

/-! ### ROM files -/

namespace Cartridge

theorem readBank_eq_ok {d : Disk} {k : Handle} {i : Nat} {b : ByteArray} :
    readBank d (.file k) i = .ok b ↔ (i + 1) * romBankSize ≤ (d.bytes k).size ∧
      b = (d.bytes k).extract (i * romBankSize) ((i + 1) * romBankSize) := by
  rw [Nat.succ_mul]
  exact Disk.read_eq_ok

/-- The banks after the fixed one, one behind the other. -/
theorem readBanks_spec {d : Disk} {k : Handle} {count : Nat} {bs : List ByteArray}
    (h0 : romBankSize ≤ (d.bytes k).size)
    (h : ((List.range count).mapM fun i =>
      (readBank d (.file k) (i + 1)).mapError (CartridgeError.switchBank (i + 1))) = .ok bs) :
    (count + 1) * romBankSize ≤ (d.bytes k).size ∧
      bs.foldl (· ++ ·) .empty =
        (d.bytes k).extract romBankSize ((count + 1) * romBankSize) := by
  induction count generalizing bs with
  | zero =>
    cases h
    rw [Nat.zero_add, Nat.one_mul]
    exact ⟨h0, by simp⟩
  | succ n ih =>
    rw [List.range_succ, List.mapM_append] at h
    obtain ⟨bs', hbs, h⟩ := bind_eq_ok.1 h
    obtain ⟨last, hlast, h⟩ := bind_eq_ok.1 h
    cases h
    rw [List.mapM_cons, List.mapM_nil] at hlast
    obtain ⟨b, hb, hlast⟩ := bind_eq_ok.1 hlast
    cases hlast
    obtain ⟨hs, hf⟩ := ih hbs
    obtain ⟨hs', rfl⟩ := readBank_eq_ok.1 (mapError_eq_ok.1 hb)
    refine ⟨hs', ?_⟩
    have h1 : romBankSize ≤ (n + 1) * romBankSize := Nat.le_mul_of_pos_left _ (Nat.succ_pos n)
    have h2 : (n + 1) * romBankSize ≤ (n + 1 + 1) * romBankSize :=
      Nat.mul_le_mul_right _ (Nat.le_succ _)
    rw [List.foldl_append, hf, List.foldl_cons, List.foldl_nil, ByteArray.extract_append_extract,
      Nat.min_eq_left h1, Nat.max_eq_right h2]

theorem exists_readBanks {d : Disk} {k : Handle} {count : Nat}
    (h : (count + 1) * romBankSize ≤ (d.bytes k).size) :
    ∃ bs, ((List.range count).mapM fun i =>
      (readBank d (.file k) (i + 1)).mapError (CartridgeError.switchBank (i + 1))) = .ok bs := by
  induction count with
  | zero => exact ⟨[], rfl⟩
  | succ n ih =>
    have hn : (n + 1) * romBankSize ≤ (n + 1 + 1) * romBankSize :=
      Nat.mul_le_mul_right _ (Nat.le_succ _)
    obtain ⟨bs, hbs⟩ := ih (hn.trans h)
    obtain ⟨b, hb⟩ : ∃ b, readBank d (.file k) (n + 1) = .ok b :=
      ⟨_, readBank_eq_ok.2 ⟨h, rfl⟩⟩
    refine ⟨bs ++ [b], ?_⟩
    rw [List.range_succ, List.mapM_append, hbs, List.mapM_cons, hb]
    rfl

/-- A ROM can be read if the file has all its banks. It is then the bytes of the file from its start
on, cut behind the first bank. -/
theorem readRom_eq_ok {d : Disk} {k : Handle} {count : Nat} {rom : ByteArray × ByteArray} :
    readRom d (.file k) count = .ok rom ↔ (count + 1) * romBankSize ≤ (d.bytes k).size ∧
      rom = ((d.bytes k).extract 0 romBankSize,
        (d.bytes k).extract romBankSize ((count + 1) * romBankSize)) := by
  have hfirst : (0 + 1) * romBankSize = romBankSize := by rw [Nat.zero_add, Nat.one_mul]
  constructor
  · intro h
    obtain ⟨fixed, hf, h⟩ := bind_eq_ok.1 h
    obtain ⟨bs, hbs, h⟩ := bind_eq_ok.1 h
    cases h
    obtain ⟨h0, hfixed⟩ := readBank_eq_ok.1 (mapError_eq_ok.1 hf)
    rw [hfirst] at h0 hfixed
    obtain ⟨hs, hbanks⟩ := readBanks_spec h0 hbs
    rw [Nat.zero_mul] at hfixed
    exact ⟨hs, Prod.ext hfixed hbanks⟩
  · rintro ⟨hs, rfl⟩
    obtain ⟨bs, hbs⟩ := exists_readBanks hs
    have h0 : (0 + 1) * romBankSize ≤ (d.bytes k).size :=
      (Nat.mul_le_mul_right _ (Nat.succ_le_succ (Nat.zero_le _))).trans hs
    have hf : readBank d (.file k) 0 = .ok ((d.bytes k).extract 0 romBankSize) :=
      readBank_eq_ok.2 ⟨h0, by rw [hfirst, Nat.zero_mul]⟩
    rw [readRom, hf, ← (readBanks_spec (hfirst ▸ h0) hbs).2]
    exact bind_eq_ok.2 ⟨_, rfl, bind_eq_ok.2 ⟨bs, hbs, rfl⟩⟩

end Cartridge

/-! ### The ROM in a memory map -/

namespace MemoryMap

/-- A memory map holds the first bank of a file, and `count` banks after it that can be selected. -/
structure HoldsRom (m : MemoryMap) (file : ByteArray) (count : Nat) : Prop where
  size : (count + 1) * 0x4000 ≤ file.size
  bankCount : m.switchRom.banks.size = count
  fixed : ∀ o < 0x4000, m.fixedRom.get? 0 o = Bytes.get? file o
  switched : ∀ i < count, ∀ o < 0x4000,
    m.switchRom.get? i o = Bytes.get? file ((i + 1) * 0x4000 + o)

/-- The first bank is selected everywhere, and no bank is locked. -/
structure Unswitched (m : MemoryMap) : Prop where
  selected : ∀ area, (m.window area).selected = 0
  locked : ∀ area i, (m.window area).isLocked i = false
  ramIndex : m.ramIndex = 0

variable {m m' : MemoryMap} {file : ByteArray} {count : Nat}

theorem unswitched_empty : Unswitched {} where
  selected area := by cases area <;> rfl
  locked area i := by cases area <;> exact Window.isLocked_zeros ..
  ramIndex := rfl

theorem Unswitched.of_sameSetup (h : m.Unswitched) (hs : m.SameSetup m') : m'.Unswitched where
  selected area := (hs.selected area).trans (h.selected area)
  locked area i := (hs.locked area i).trans (h.locked area i)
  ramIndex := hs.ramIndex.trans h.ramIndex

theorem HoldsRom.of_sameSetup (h : m.HoldsRom file count) (hs : m.SameSetup m') :
    m'.HoldsRom file count := by
  have hf : m'.fixedRom = m.fixedRom := hs.rom .fixedRom rfl
  have hw : m'.switchRom = m.switchRom := hs.rom .switchRom rfl
  refine ⟨h.size, ?_, ?_, ?_⟩
  · rw [hw, h.bankCount]
  · rw [hf]
    exact h.fixed
  · rw [hw]
    exact h.switched

/-- With the first banks selected, the addresses below 0x8000 read as the file does. -/
theorem HoldsRom.get?_eq_read (h : m.HoldsRom file count) (hu : m.Unswitched) (hc : 0 < count)
    {a : UInt16} (ha : a.toNat < 0x8000) (d : Disk) :
    Bytes.get? file a.toNat = some (m.read d a) := by
  have hsize : 0x8000 ≤ file.size := by
    have := h.size
    omega
  obtain ⟨v, hv⟩ := Bytes.exists_get? (Nat.lt_of_lt_of_le ha hsize)
  rw [hv]
  have hread {area : Area} {o : Nat} (hp : Place.of a = .banked area o)
      (hw : (m.window area).get? 0 o = some v) : m.read d a = v := by
    refine read_of_banked hp (hu.locked _ _) ?_ d
    rw [hu.selected]
    exact hw
  rcases Nat.lt_or_ge a.toNat 0x4000 with hl | hl
  · rw [hread (Place.of_fixedRom hl) ((h.fixed _ hl).trans hv)]
  · have ho : (0 + 1) * 0x4000 + (a.toNat - 0x4000) = a.toNat := by omega
    have hs := h.switched 0 hc (a.toNat - 0x4000) (by omega)
    rw [ho, hv] at hs
    rw [hread (Place.of_switchRom hl ha) hs]

section load

variable (m : MemoryMap) (fixed banks : ByteArray) (count : Nat)

theorem fixedRom_load :
    (((m.loadFixedRom fixed).loadSwitchRom banks count).select .switchRom 0).fixedRom =
      ⟨#[{ data := fixed }], 0⟩ := rfl

theorem switchRom_load :
    (((m.loadFixedRom fixed).loadSwitchRom banks count).select .switchRom 0).switchRom =
      ⟨(Array.range count).map (romBank banks), 0⟩ := rfl

end load

/-- The ROM of a file, copied into a memory map. -/
theorem holdsRom_load (m : MemoryMap) (hs : (count + 1) * 0x4000 ≤ file.size) :
    (((m.loadFixedRom (file.extract 0 0x4000)).loadSwitchRom
      (file.extract 0x4000 ((count + 1) * 0x4000)) count).select .switchRom 0).HoldsRom
        file count where
  size := hs
  bankCount := by rw [switchRom_load, Array.size_map, Array.size_range]
  fixed o ho := by
    have hb : (#[{ data := file.extract 0 0x4000 }] : Array Bank)[0]? =
        some { data := file.extract 0 0x4000 } := rfl
    rw [fixedRom_load]
    refine (Window.get?_of_bank hb o).trans ?_
    rw [Bank.get?, Bytes.get?_extract, Nat.zero_add, if_pos ho]
  switched i hi o ho := by
    have hb : ((Array.range count).map
        (romBank (file.extract 0x4000 ((count + 1) * 0x4000))))[i]? =
          some (romBank (file.extract 0x4000 ((count + 1) * 0x4000)) i) := by
      rw [Array.getElem?_map, Array.getElem?_range, if_pos hi]
      rfl
    have hn : 0x4000 + (i * 0x4000 + o) = (i + 1) * 0x4000 + o := by omega
    have hlt : (i + 1) * 0x4000 + o < (count + 1) * 0x4000 := by omega
    obtain ⟨v, hv⟩ := Bytes.exists_get? (Nat.lt_of_lt_of_le hlt hs)
    rw [switchRom_load]
    refine (Window.get?_of_bank hb o).trans ?_
    rw [get?_romBank, if_pos ho, Bytes.get?_extract, hn, if_pos hlt, hv]
    rfl

theorem isLocked_of_banks {w : Window} (h : ∀ b ∈ w.banks, b.locked = false) (i : Nat) :
    w.isLocked i = false := by
  unfold Window.isLocked
  split
  · next b hb => exact h b (Array.mem_of_getElem? hb)
  · rfl

theorem Unswitched.load (h : m.Unswitched) (ram : CartridgeRam) (fixed banks : ByteArray)
    (count : Nat) :
    ((((m.setRam ram).loadFixedRom fixed).loadSwitchRom banks count).select
      .switchRom 0).Unswitched := by
  generalize hm : (((m.setRam ram).loadFixedRom fixed).loadSwitchRom banks count).select
    .switchRom 0 = m'
  have hf : m'.window .fixedRom = ⟨#[{ data := fixed }], 0⟩ := by
    rw [← hm]
    exact fixedRom_load _ fixed banks count
  have hs : m'.window .switchRom = ⟨(Array.range count).map (romBank banks), 0⟩ := by
    rw [← hm]
    exact switchRom_load _ fixed banks count
  have hw (area : Area) (ha : area.isRom = false) : m'.window area = m.window area := by
    rw [← hm]
    cases area <;> first | rfl | cases ha
  refine ⟨fun area => ?_, fun area i => ?_, by rw [← hm]; rfl⟩
  · cases area with
    | fixedRom => rw [hf]
    | switchRom => rw [hs]
    | _ => rw [hw _ rfl, h.selected]
  · cases area with
    | fixedRom =>
      rw [hf]
      refine isLocked_of_banks (fun b hb => ?_) i
      rw [Array.mem_singleton.1 hb]
    | switchRom =>
      rw [hs]
      refine isLocked_of_banks (fun b hb => ?_) i
      obtain ⟨n, -, rfl⟩ := Array.mem_map.1 hb
      rfl
    | _ => rw [hw _ rfl, h.locked]

end MemoryMap

/-- What a cartridge leaves on a board: the ROM of its file as it is then, and on the disk at most
another size of the save file. -/
theorem Cartridge.load_spec {c : Cartridge} {b b' : Board} (h : c.load b = (.ok (), b'))
    (hu : b.map.Unswitched) :
    ∃ k, b'.disk.find c.romPath = .ok (.file k) ∧
      b'.map.HoldsRom (b'.disk.bytes k) c.switchBanks ∧ b'.map.Unswitched ∧
      b'.disk.Extends b.disk ∧
      ∀ i < b.disk.contents.size, b'.disk.bytes i = b.disk.bytes i ∨
        ∃ p n, c.savePath = some p ∧ b.disk.find p = .ok (.file i) ∧
          b'.disk.bytes i = Bytes.resize (b.disk.bytes i) n := by
  unfold load at h
  split at h
  · cases h
  · next b₁ ha =>
    obtain ⟨ram, hm, he, hbytes⟩ := Board.attachRam_spec ha
    split at h
    · cases h
    · next fixed banks hr =>
      cases h
      obtain ⟨file, hf, hr⟩ := bind_eq_ok.1 hr
      have hf := Disk.find_of_openRead (mapError_eq_ok.1 hf)
      cases file with
      | directory => cases hr
      | file k =>
        obtain ⟨hs, hrom⟩ := readRom_eq_ok.1 hr
        obtain ⟨rfl, rfl⟩ := Prod.mk.inj hrom
        refine ⟨k, hf, MemoryMap.holdsRom_load _ hs, ?_, he, hbytes⟩
        rw [hm]
        exact hu.load ram _ _ _

/-- A cartridge loads if its RAM can be set up and the ROM file then has all banks. -/
theorem Cartridge.exists_load {c : Cartridge} {b b₁ : Board} {k : Handle}
    (ha : b.attachRam c.ramBanks c.hasBattery c.savePath = (.ok (), b₁))
    (hk : b₁.disk.openRead c.romPath = .ok (.file k))
    (hs : (c.switchBanks + 1) * romBankSize ≤ (b₁.disk.bytes k).size) :
    ∃ b', c.load b = (.ok (), b') := by
  have hr : c.rom b₁.disk = .ok ((b₁.disk.bytes k).extract 0 romBankSize,
      (b₁.disk.bytes k).extract romBankSize ((c.switchBanks + 1) * romBankSize)) :=
    bind_eq_ok.2 ⟨_, mapError_eq_ok.2 hk, readRom_eq_ok.2 ⟨hs, rfl⟩⟩
  rw [load, ha]
  dsimp only
  rw [hr]
  exact ⟨_, rfl⟩

/-- The ROM that a new memory map gets is that of the file, unless the save file is the same file:
then it is the file as it was cut or extended. -/
theorem Cartridge.load_file {d : Disk} {path : String} {k : Handle} {c : Cartridge} {b : Board}
    (hk : d.find path = .ok (.file k)) (hc : ofFile d path = .ok c)
    (h : c.load { disk := d } = (.ok (), b)) :
    ∃ rom, b.map.HoldsRom rom c.switchBanks ∧ b.map.Unswitched ∧
      (rom = d.bytes k ∨ ∃ n, rom = Bytes.resize (d.bytes k) n) ∧
      (d.HasOneName k → rom = d.bytes k) := by
  obtain ⟨rfl, hx, -, hsave, hsize⟩ := ofFile_spec hc
  -- A file with a header has bytes, so that a new save file has another handle.
  have hlt : k < d.contents.size :=
    Disk.lt_of_bytes (Nat.lt_of_lt_of_le (by decide) (hsize k hk))
  obtain ⟨k', hk', hrom, hu, he, hbytes⟩ := load_spec h MemoryMap.unswitched_empty
  have hfind : b.disk.find c.romPath = .ok (.file k) := Disk.find_of_extends he hk
  obtain rfl : k' = k := Node.file.inj (Except.ok.inj (hk'.symm.trans hfind))
  refine ⟨_, hrom, hu, ?_⟩
  rcases hbytes k' hlt with hsame | ⟨p, n, hp, hfp, hresize⟩
  · exact ⟨.inl hsame, fun _ => hsame⟩
  · refine ⟨.inr ⟨n, hresize⟩, fun hul => absurd hfp ?_⟩
    rw [hsave p hp]
    exact find_savePath_ne hul hx hk

end DotMatrix
