import DotMatrix.Proofs.Cartridge.Rom
import DotMatrix.Proofs.Disk.NamedFile

/-!
# What a failed setup leaves

Setting up cartridge RAM and loading a cartridge can fail at several points, and what has been done
by then stays.

* `b.SameMemory b'` says that the memory of `b` is as it was in `b'`: the map, and every byte that
  is behind it, those in a save file too. `Board.SetupError` lists the errors of setting up RAM.
* `Board.attachRam_eq_error` says that RAM that cannot be set up leaves the memory as it was.
* `c.RamOn b b'` says that `b'` is `b` with the RAM of the cartridge `c` and nothing else changed. A
  load that cannot read the ROM leaves this (`load_eq_error`).
* `load_failure` puts it together: what each error of a load leaves, and which error comes first.
-/

namespace DotMatrix

/-! ### Results -/

section Results

variable {α β ε ε' : Type}

theorem bind_eq_error {x : Except ε α} {g : α → Except ε β} {e : ε}
    (h : x >>= g = .error e) : x = .error e ∨ ∃ a, x = .ok a ∧ g a = .error e := by
  cases x with
  | error e' =>
    cases h
    exact .inl rfl
  | ok a => exact .inr ⟨a, rfl, h⟩

theorem mapError_eq_error {x : Except ε α} {f : ε → ε'} {e : ε'} (h : x.mapError f = .error e) :
    ∃ cause, x = .error cause ∧ e = f cause := by
  cases x with
  | error cause =>
    cases h
    exact ⟨cause, rfl, rfl⟩
  | ok a => cases h

/-- The error of a traversal is that of one of its elements. -/
theorem mapM_eq_error {l : List α} {g : α → Except ε β} {e : ε} (h : l.mapM g = .error e) :
    ∃ a ∈ l, g a = .error e := by
  induction l with
  | nil => cases h
  | cons a l ih =>
    rw [List.mapM_cons] at h
    rcases bind_eq_error h with ha | ⟨b, -, h⟩
    · exact ⟨a, List.mem_cons_self, ha⟩
    · rcases bind_eq_error h with hl | ⟨bs, -, h⟩
      · obtain ⟨a', ha', he⟩ := ih hl
        exact ⟨a', List.mem_cons_of_mem a ha', he⟩
      · cases h

end Results

/-! ### Save files -/

namespace Disk

variable {d d' : Disk} {path : String} {k : Handle}

/-- A file that was opened is what its path leads to. -/
theorem find_openOrCreate (h : d.openOrCreate path = .ok (k, d')) :
    d'.find path = .ok (.file k) := by
  obtain ⟨l, hl, -, ⟨hk, rfl⟩ | ⟨hn, rfl, rfl⟩⟩ := openOrCreate_cases h
  · exact find_eq_ok.2 ⟨l, hl, hk⟩
  · exact find_eq_ok.2 ⟨l, resolve_of_extends (extends_addFile hn _ _) hl, node_addFile hn _ _⟩

/-- A length that is refused changes nothing. -/
theorem setLength_eq_error {n : Nat} {e : DiskError} (h : d.setLength k n = (.error e, d')) :
    lengthLimit ≤ n ∧ e = .lengthOutOfRange ∧ d' = d := by
  unfold setLength at h
  split at h
  · cases h
  · next hn =>
    cases h
    exact ⟨Nat.le_of_not_lt hn, rfl, rfl⟩

theorem size_setLength {n : Nat} (h : d.setLength k n = (.ok (), d')) :
    d'.contents.size = d.contents.size := by
  unfold setLength at h
  split at h <;> cases h
  exact Array.size_modify

end Disk

namespace Board

/-- The errors of setting up `banks` banks of RAM in the save file at a path, if there is a path,
each with what brings it about. -/
inductive SetupError (d : Disk) (banks : Nat) : Option String → MemoryError → Prop
  | missingSavePath : SetupError d banks none .missingSavePath
  | saveOpen {path : String} {cause : DiskError} (h : d.openOrCreate path = .error cause) :
    SetupError d banks (some path) (.saveOpen path cause)
  | saveResize {path : String} (h : Disk.lengthLimit ≤ banks * CartridgeRam.bankSize) :
    SetupError d banks (some path)
      (.saveResize path (banks * CartridgeRam.bankSize) .lengthOutOfRange)

/-- A board has the memory of another: the same map, the RAM and the selected bank of it included,
and the same byte, or miss, behind each cell. -/
structure SameMemory (b b' : Board) : Prop where
  map : b'.map = b.map
  get : ∀ c, b'.map.get b'.disk c = b.map.get b.disk c

end Board

/-- What a cell holds depends on the bytes of the files alone, not on their names. -/
theorem MemoryMap.get_congr_disk (m : MemoryMap) {d d' : Disk} (h : ∀ i, d'.bytes i = d.bytes i)
    (c : Cell) : m.get d' c = m.get d c := by
  cases c with
  | bank area i o => rfl
  | ram i o =>
    show m.ram.get d' i o = m.ram.get d i o
    cases m.ram with
    | none => rfl
    | volatile data banks => rfl
    | persistent k path banks => simp only [CartridgeRam.get, Disk.byte, h]

theorem CartridgeRam.openSave_eq_error {path : String} {banks : Nat} {d d' : Disk} {e : MemoryError}
    (h : openSave path banks d = (.error e, d')) :
    Board.SetupError d banks (some path) e ∧ ∀ i, d'.bytes i = d.bytes i := by
  unfold openSave at h
  split at h
  · cases h
  · split at h
    · next hopen =>
      cases h
      exact ⟨.saveOpen hopen, fun _ => rfl⟩
    · next k d₁ hopen =>
      split at h
      · cases h
      · next hlen =>
        -- The file may have been made by now, but it is empty.
        cases h
        obtain ⟨hn, rfl, rfl⟩ := Disk.setLength_eq_error hlen
        exact ⟨.saveResize hn, Disk.bytes_openOrCreate hopen⟩

/-- A save file that was opened is what its path leads to. It has the size of the banks, and the
bytes that it had up to there. -/
theorem CartridgeRam.openSave_eq_ok {path : String} {banks : Nat} {d d' : Disk} {ram : CartridgeRam}
    (h : openSave path banks d = (.ok ram, d')) (h0 : banks ≠ 0) :
    ∃ k, ram = .persistent k path banks ∧ d'.find path = .ok (.file k) ∧
      (k < d'.contents.size → d'.bytes k = Bytes.resize (d.bytes k) (banks * bankSize)) := by
  rw [openSave, if_neg h0] at h
  split at h
  · cases h
  · next k d₁ hopen =>
    split at h
    · next hlen =>
      cases h
      have hfind := Disk.find_of_extends (Disk.extends_setLength hlen)
        (Disk.find_openOrCreate hopen)
      refine ⟨k, rfl, hfind, fun hk => ?_⟩
      rw [Disk.size_setLength hlen] at hk
      rw [Disk.bytes_setLength hlen hk, if_pos rfl, Disk.bytes_openOrCreate hopen]
    · cases h

/-- RAM that cannot be set up leaves the memory as it was. -/
theorem Board.attachRam_eq_error {b b' : Board} {banks : Nat} {battery : Bool}
    {path : Option String} {e : MemoryError}
    (h : b.attachRam banks battery path = (.error e, b')) :
    SetupError b.disk banks path e ∧ b.SameMemory b' := by
  unfold attachRam at h
  split at h
  · split at h
    · cases h
      exact ⟨.missingSavePath, rfl, fun _ => rfl⟩
    · next p =>
      split at h
      · cases h
      · next hsave =>
        cases h
        obtain ⟨he, hbytes⟩ := CartridgeRam.openSave_eq_error hsave
        exact ⟨he, rfl, b.map.get_congr_disk hbytes⟩
  · cases h

/-! ### Loading -/

namespace Cartridge

/-- A board is another one with the RAM of a cartridge, the first bank of which is selected. RAM
without a battery holds zeros. RAM with one is in the save file of the cartridge, which has the size
of the banks and keeps its bytes up to there. -/
structure RamOn (c : Cartridge) (b b' : Board) : Prop where
  map : b'.map = b.map.setRam b'.map.ram
  volatile : (c.hasBattery && c.ramBanks != 0) = false → b'.map.ram = .ofBanks c.ramBanks
  persistent : (c.hasBattery && c.ramBanks != 0) = true → ∃ path k, c.savePath = some path ∧
    b'.map.ram = .persistent k path c.ramBanks ∧ b'.disk.find path = .ok (.file k) ∧
      (k < b'.disk.contents.size →
        b'.disk.bytes k = Bytes.resize (b.disk.bytes k) (c.ramBanks * CartridgeRam.bankSize))

namespace RamOn

variable {c : Cartridge} {b b' : Board}

/-- All but the RAM is as it was. -/
theorem window_eq (h : c.RamOn b b') (area : Area) : b'.map.window area = b.map.window area := by
  rw [h.map]
  cases area <;> rfl

theorem ramIndex_eq (h : c.RamOn b b') : b'.map.ramIndex = 0 := by
  rw [h.map]
  rfl

end RamOn

/-- The errors of reading a ROM. -/
def IsRomError : CartridgeError → Prop
  | .openRom .. | .fixedBank _ | .switchBank .. => True
  | _ => False

variable {c : Cartridge} {d : Disk} {b b' : Board} {e : CartridgeError}

theorem isRomError_of_rom (h : c.rom d = .error e) : IsRomError e := by
  rcases bind_eq_error h with h | ⟨file, -, h⟩
  · obtain ⟨cause, -, rfl⟩ := mapError_eq_error h
    trivial
  · rcases bind_eq_error h with h | ⟨fixed, -, h⟩
    · obtain ⟨cause, -, rfl⟩ := mapError_eq_error h
      trivial
    · rcases bind_eq_error h with h | ⟨banks, -, h⟩
      · obtain ⟨i, -, hi⟩ := mapM_eq_error h
        obtain ⟨cause, -, rfl⟩ := mapError_eq_error hi
        trivial
      · cases h

theorem ramOn_of_attachRam
    (h : b.attachRam c.ramBanks c.hasBattery c.savePath = (.ok (), b')) : c.RamOn b b' := by
  have hmap : b'.map = b.map.setRam b'.map.ram := by
    obtain ⟨ram, hram, -⟩ := Board.attachRam_spec h
    rw [hram]
    rfl
  unfold Board.attachRam at h
  split at h
  · next hb =>
    have h0 : c.ramBanks ≠ 0 := by
      intro h0
      simp [h0] at hb
    refine ⟨hmap, fun hn => absurd hb (by simp [hn]), fun _ => ?_⟩
    split at h
    · cases h
    · next path hpath =>
      split at h
      · next hsave =>
        cases h
        obtain ⟨k, rfl, hfind, hbytes⟩ := CartridgeRam.openSave_eq_ok hsave h0
        exact ⟨path, k, hpath, rfl, hfind, hbytes⟩
      · cases h
  · next hb =>
    cases h
    exact ⟨hmap, fun _ => rfl, fun ht => absurd ht hb⟩

/-- RAM that cannot be set up is the error of a load, whatever the ROM. -/
theorem load_of_attachRam_eq_error {cause : MemoryError}
    (h : b.attachRam c.ramBanks c.hasBattery c.savePath = (.error cause, b')) :
    c.load b = (.error (.saveFile cause), b') := by
  rw [load, h]

/-- A load that fails has not set up the RAM, or it has done that alone and then not read the
ROM. -/
theorem load_eq_error (h : c.load b = (.error e, b')) :
    (∃ cause, e = .saveFile cause ∧ Board.SetupError b.disk c.ramBanks c.savePath cause ∧
      b.SameMemory b') ∨
    (IsRomError e ∧ c.rom b'.disk = .error e ∧ c.RamOn b b') := by
  unfold load at h
  split at h
  · next cause b₁ hattach =>
    cases h
    obtain ⟨he, hsame⟩ := Board.attachRam_eq_error hattach
    exact .inl ⟨cause, rfl, he, hsame⟩
  · next b₁ hattach =>
    split at h
    · next hrom =>
      cases h
      exact .inr ⟨isRomError_of_rom hrom, hrom, ramOn_of_attachRam hattach⟩
    · cases h

/-- What a failed setup leaves. RAM that cannot be set up leaves the memory as it was. A load that
fails leaves every area but the RAM of the cartridge as it was, with its banks, locks and selected
bank. If the save file was at fault the RAM is as it was too, and if the ROM was it is already that
of the cartridge with its first bank selected. Where both would be at fault, it is the save file. -/
theorem load_failure (c : Cartridge) (b : Board) :
    (∀ banks battery path cause b', b.attachRam banks battery path = (.error cause, b') →
      Board.SetupError b.disk banks path cause ∧ b.SameMemory b') ∧
    (∀ e b', c.load b = (.error e, b') →
      (∀ area, b'.map.window area = b.map.window area) ∧
      ((∃ cause, e = .saveFile cause ∧ b.SameMemory b') ∨
        IsRomError e ∧ c.rom b'.disk = .error e ∧ c.RamOn b b' ∧ b'.map.ramIndex = 0)) ∧
    (∀ cause b', b.attachRam c.ramBanks c.hasBattery c.savePath = (.error cause, b') →
      c.load b = (.error (.saveFile cause), b')) := by
  refine ⟨fun _ _ _ _ _ => Board.attachRam_eq_error, fun e b' h => ?_,
    fun _ _ => load_of_attachRam_eq_error⟩
  rcases load_eq_error h with ⟨cause, he, -, hsame⟩ | ⟨he, hrom, hram⟩
  · refine ⟨fun area => ?_, .inl ⟨cause, he, hsame⟩⟩
    rw [hsame.map]
  · exact ⟨hram.window_eq, .inr ⟨he, hrom, hram, hram.ramIndex_eq⟩⟩

/-- The save file of a cartridge is a directory, and there is no ROM file. The save file is at
fault. Without the directory it is the ROM file, and the RAM is there. -/
theorem load_failure_of_both :
    let b : Board := { disk := Disk.makeDirectory {} "a.sav" }
    fourBanks.rom b.disk = .error (.openRom "a.gb" .notFound) ∧
    (∃ b', fourBanks.load b = (.error (.saveFile (.saveOpen "a.sav" .isDirectory)), b') ∧
      b.SameMemory b') ∧
    ∃ b', fourBanks.load {} = (.error (.openRom "a.gb" .notFound), b') ∧
      fourBanks.RamOn {} b' ∧ b'.map.ram = .persistent 0 "a.sav" 1 := by
  intro b
  have hattach : b.attachRam fourBanks.ramBanks fourBanks.hasBattery fourBanks.savePath =
      (.error (.saveOpen "a.sav" .isDirectory), b) := rfl
  obtain ⟨hsetup, -, hfirst⟩ := load_failure fourBanks b
  refine ⟨rfl, ⟨b, hfirst _ _ hattach, (hsetup _ _ _ _ _ hattach).2⟩, ?_⟩
  have hload : fourBanks.load {} = (.error (.openRom "a.gb" .notFound), (fourBanks.load {}).2) :=
    rfl
  rcases ((load_failure fourBanks {}).2.1 _ _ hload).2 with ⟨cause, he, -⟩ | ⟨-, -, hram, -⟩
  · cases he
  · exact ⟨_, hload, hram, rfl⟩

end Cartridge

end DotMatrix
