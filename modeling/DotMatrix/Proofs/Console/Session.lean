import DotMatrix.Console
import DotMatrix.Proofs.Cartridge.Load
import DotMatrix.Proofs.Processor.Accounting
import DotMatrix.Proofs.Processor.Run

/-!
# Sessions

A session begins by loading a ROM file and consists of steps and frames. Whatever program runs, all
it does to the board is accesses.

* `s.Runs s'` says that completed steps and frames lead from `s` to `s'`.
* `s.Succeeds s'` is what every run keeps: the cartridge, and a board that is changed by accesses
  alone.
* `exists_step` says that a step completes while the counter of cycles has room.
* `setup_of_runs` says what no program changes: the ROM, the selected banks, the locks, and what
  kind of RAM the cartridge has.
-/

namespace DotMatrix

/-- A step costs from 4 to 20 cycles. -/
theorem Machine.cycles_of_step {σ : Type} [Bus σ] {m m' : Machine σ} {n : Nat}
    (h : m.step = .ok (n, m')) : 4 ≤ n ∧ n ≤ 20 := by
  have ht := takes_of_step h
  cases ht with
  | sampleLines | enterHandler | wait => decide
  | fetch _ _ _ _ _ _ _ _ _ _ _ _ _ completes => exact completes.cycles_bounds

namespace Console

variable {s s' s'' : Console} {n : Nat}

/-! ### Steps and frames -/

/-- A session follows another one on the same cartridge, and all that happened to the board is
accesses. -/
structure Succeeds (s s' : Console) : Prop where
  cartridge : s'.cartridge = s.cartridge
  performs : ∃ l, Performs s.machine.bus l s'.machine.bus

namespace Succeeds

theorem refl (s : Console) : s.Succeeds s := ⟨rfl, [], .nil _⟩

theorem trans (h : s.Succeeds s') (h' : s'.Succeeds s'') : s.Succeeds s'' := by
  obtain ⟨l, hl⟩ := h.performs
  obtain ⟨l', hl'⟩ := h'.performs
  exact ⟨h'.cartridge.trans h.cartridge, l ++ l', hl.append hl'⟩

end Succeeds

/-- The LCD stores its registers back by writes. -/
theorem performs_lcd (lcd : Lcd) (cycles : Nat) (b : Board) :
    ∃ l, Performs b l (lcd.step cycles b).2 := by
  unfold Lcd.step
  dsimp only
  generalize LcdRegisters.addressed _ = table
  exact ⟨_, .writes b table⟩

theorem succeeds_of_step (h : s.step = .ok (n, s')) : s.Succeeds s' := by
  obtain ⟨⟨cycles, m⟩, hm, h⟩ := bind_eq_ok.1 h
  obtain ⟨cycle, -, h⟩ := bind_eq_ok.1 h
  cases h
  obtain ⟨l, hl⟩ := Machine.performs_of_step hm
  obtain ⟨l', hl'⟩ := performs_lcd s.lcd n m.bus
  exact ⟨rfl, l ++ l', hl.append hl'⟩

theorem succeeds_of_fillFrame {fuel : Nat} (h : fillFrame fuel s = .ok s') : s.Succeeds s' := by
  induction fuel generalizing s with
  | zero =>
    cases h
    exact .refl _
  | succ fuel ih =>
    rw [fillFrame] at h
    split at h
    · obtain ⟨⟨n, s₁⟩, hs, h⟩ := bind_eq_ok.1 h
      exact (succeeds_of_step hs).trans (ih h)
    · cases h
      exact .refl _

theorem succeeds_of_stepFrame (h : s.stepFrame = .ok s') : s.Succeeds s' := by
  obtain ⟨s₁, hs, h⟩ := bind_eq_ok.1 h
  cases h
  have hf := succeeds_of_fillFrame hs
  exact ⟨hf.cartridge, hf.performs⟩

/-- Completed steps and frames lead from one session to another. -/
inductive Runs (s : Console) : Console → Prop
  | refl : s.Runs s
  | step {s₁ s₂ : Console} {n : Nat} (h : s.Runs s₁) (hs : s₁.step = .ok (n, s₂)) : s.Runs s₂
  | frame {s₁ s₂ : Console} (h : s.Runs s₁) (hf : s₁.stepFrame = .ok s₂) : s.Runs s₂

theorem Runs.succeeds (h : s.Runs s') : s.Succeeds s' := by
  induction h with
  | refl => exact .refl s
  | step _ hs ih => exact ih.trans (succeeds_of_step hs)
  | frame _ hf ih => exact ih.trans (succeeds_of_stepFrame hf)

/-- A step completes while the counter of cycles has room. -/
theorem exists_step (s : Console) (h : s.cycle.toNat + 20 < UInt32.size) :
    ∃ n s', s.step = .ok (n, s') := by
  obtain ⟨n, m, hm, -⟩ := s.machine.exists_takes
  have hn := (Machine.cycles_of_step hm).2
  have hc : count s.cycle n = .ok (UInt32.ofNat (s.cycle.toNat + n)) := if_pos (by omega)
  exact ⟨_, _, bind_eq_ok.2 ⟨_, hm, bind_eq_ok.2 ⟨_, hc, rfl⟩⟩⟩

/-! ### What a session keeps -/

theorem performs_startMachine (options : Options) (b : Board) (j : Journal) :
    ∃ l, Performs b l (startMachine options b j).bus := by
  unfold startMachine
  dsimp only
  split
  · exact Machine.performs_powerOn { cpu := { rules := options.rules }, bus := b, journal := j }
  · exact ⟨[], .nil b⟩

/-- A session that starts has a cartridge, and its board as the cartridge left it but for
accesses. -/
theorem start_spec {path : String} {options : Options} {d : Disk} {j : Journal}
    (h : start path options d j = .ok s) :
    ∃ b, Cartridge.ofFile d path = .ok s.cartridge ∧ s.cartridge.load { disk := d } = (.ok (), b) ∧
      ∃ l, Performs b l s.machine.bus := by
  unfold start at h
  dsimp only at h
  split at h
  · cases h
  · next c hc =>
    split at h
    · cases h
    · next b hl =>
      cases h
      exact ⟨b, hc, hl, performs_startMachine options b _⟩

theorem exists_start {path : String} {options : Options} {d : Disk} {j : Journal} {c : Cartridge}
    {b : Board} (hc : Cartridge.ofFile d path = .ok c) (hl : c.load { disk := d } = (.ok (), b)) :
    ∃ s, start path options d j = .ok s ∧ s.cycle = 0 := by
  rw [start, hc]
  dsimp only
  rw [hl]
  exact ⟨_, rfl, rfl⟩

/-- A byte of a file that was cut or extended is the byte of the file, or a zero past its end. -/
theorem eq_getD_of_resize {file : ByteArray} {n i : Nat} {v : UInt8}
    (h : Bytes.get? (Bytes.resize file n) i = some v) : v = (Bytes.get? file i).getD 0 := by
  rw [Bytes.get?_resize] at h
  split at h
  · cases h
  · split at h
    · next hi =>
      rw [(Bytes.get?_eq_none_iff file i).2 hi]
      exact (Option.some.inj h).symm
    · rw [h]
      rfl

variable {path : String} {options : Options} {d : Disk} {j : Journal} {k : Handle}

/-- No program changes the ROM or the setup of the memory map. The addresses below 0x8000 go on
reading the bytes of the ROM file, all of which are there unless the ROM file has a second name and
so can be its own save file; the first bank of every area stays selected, no bank is locked, there
are as many switchable ROM banks as the header says, and the cartridge keeps its kind of RAM, its
save file and its number of RAM banks. -/
theorem setup_of_runs (hk : d.find path = .ok (.file k)) (hs : start path options d j = .ok s)
    (h : s.Runs s') :
    (∀ a : UInt16, a.toNat < 0x8000 →
      (Bus.read s'.machine.bus a).1 = (Bytes.get? (d.bytes k) a.toNat).getD 0) ∧
    (d.HasOneName k → 0x8000 ≤ (d.bytes k).size) ∧
    s'.machine.bus.map.Unswitched ∧
    s'.cartridge = s.cartridge ∧
    s'.machine.bus.map.switchRom.banks.size = s'.cartridge.header.romBanks - 1 ∧
    s'.machine.bus.map.ram.shape = s.machine.bus.map.ram.shape := by
  obtain ⟨b, hc, hl, l, hstart⟩ := start_spec hs
  obtain ⟨rom, hrom, hu, hsame, hfile⟩ := Cartridge.load_file hk hc hl
  obtain ⟨-, -, hbanks, -, -⟩ := Cartridge.ofFile_spec hc
  obtain ⟨hcart, l', hrun⟩ := h.succeeds
  have hpos : 0 < s.cartridge.switchBanks := by
    unfold Cartridge.switchBanks
    omega
  -- Between the loaded board and the one after the run there are accesses alone.
  have hs₀ := Board.sameSetup_of_performs hstart
  have hs₁ := Board.sameSetup_of_performs hrun
  have hu' := (hu.of_sameSetup hs₀).of_sameSetup hs₁
  have hrom' := (hrom.of_sameSetup hs₀).of_sameSetup hs₁
  refine ⟨fun a ha => ?_, fun hul => ?_, hu', hcart, ?_, hs₁.shape⟩
  · have hv := hrom'.get?_eq_read hu' hpos ha s'.machine.bus.disk
    show s'.machine.bus.map.read s'.machine.bus.disk a = _
    rcases hsame with rfl | ⟨n, rfl⟩
    · rw [hv]
      rfl
    · exact eq_getD_of_resize hv
  · have hsize := hrom.size
    rw [hfile hul] at hsize
    omega
  · rw [hrom'.bankCount, hcart]
    rfl

/-- Two banks of zeros, but for the check byte of the header. -/
def blankRom : ByteArray := Bytes.set (Bytes.zeros 0x8000) 0x14D 0xE7

/-- A disk with nothing but a ROM file. -/
def romDisk (file : ByteArray) : Disk :=
  { files := [({ names := [['a', '.', 'g', 'b']] }, 0)], contents := #[file] }

/-- The cartridge of a blank ROM. -/
def blankCartridge : Cartridge := ⟨"a.gb", none, ⟨"", .none, 2, 0⟩⟩

theorem size_blankRom : blankRom.size = 0x8000 := by
  rw [blankRom, Bytes.size_set, Bytes.size_zeros]

theorem openRead_romDisk (file : ByteArray) :
    (romDisk file).openRead "a.gb" = .ok (.file 0) := by rfl

theorem bytes_romDisk (file : ByteArray) : (romDisk file).bytes 0 = file := rfl

theorem ofBytes_blankRom :
    Header.ofBytes (Vector.ofFn fun i : Fin 80 => if i.val = 0x4D then 0xE7 else 0) =
      .ok ⟨"", .none, 2, 0⟩ := by rfl

theorem ofFile_blankRom : Cartridge.ofFile (romDisk blankRom) "a.gb" = .ok blankCartridge := by
  have hbyte (i : Fin 80) : (Bytes.get? blankRom (Header.start + i)).getD 0 =
      if i.val = 0x4D then 0xE7 else 0 := by
    have hi : Header.start + i < 0x8000 := by
      rw [Header.start]
      omega
    rw [blankRom, Bytes.get?_set, Bytes.size_zeros, Bytes.get?_zeros, if_pos hi]
    by_cases h : i.val = 0x4D
    · rw [if_pos h, h]
      rfl
    · rw [if_neg h, if_neg]
      · rfl
      · rw [Header.start]
        omega
  have hs : Header.start + 80 ≤ ((romDisk blankRom).bytes 0).size := by
    rw [bytes_romDisk, size_blankRom]
    decide
  have hh : Header.ofBytes (Vector.ofFn fun i =>
      (Bytes.get? ((romDisk blankRom).bytes 0) (Header.start + i)).getD 0) =
        .ok ⟨"", .none, 2, 0⟩ := by
    rw [bytes_romDisk, ← ofBytes_blankRom]
    exact congrArg (fun g => Header.ofBytes (Vector.ofFn g)) (funext hbyte)
  exact Cartridge.ofFile_of_header (openRead_romDisk blankRom) (by decide) hs hh

/-- A step of a blank ROM in a new session. -/
theorem setup_of_runs_blank :
    ∃ s n s', (romDisk blankRom).find "a.gb" = .ok (.file 0) ∧
      start "a.gb" {} (romDisk blankRom) {} = .ok s ∧ s.step = .ok (n, s') ∧
      (∀ a : UInt16, a.toNat < 0x8000 →
        (Bus.read s'.machine.bus a).1 =
          (Bytes.get? ((romDisk blankRom).bytes 0) a.toNat).getD 0) ∧
      s'.machine.bus.map.switchRom.banks.size = s'.cartridge.header.romBanks - 1 := by
  have hsize : (blankCartridge.switchBanks + 1) * Cartridge.romBankSize ≤
      ((romDisk blankRom).bytes 0).size := by
    rw [bytes_romDisk, size_blankRom]
    decide
  obtain ⟨b, hl⟩ : ∃ b, blankCartridge.load { disk := romDisk blankRom } = (.ok (), b) :=
    Cartridge.exists_load rfl (openRead_romDisk blankRom) hsize
  obtain ⟨s, hs, h0⟩ : ∃ s, start "a.gb" {} (romDisk blankRom) {} = .ok s ∧ s.cycle = 0 :=
    exists_start ofFile_blankRom hl
  obtain ⟨n, s', hn⟩ := s.exists_step (by rw [h0]; decide)
  have hk := Disk.find_of_openRead (openRead_romDisk blankRom)
  obtain ⟨hrom, -, -, -, hbanks, -⟩ := setup_of_runs hk hs (Runs.refl.step hn)
  exact ⟨s, n, s', hk, hs, hn, hrom, hbanks⟩

end Console

end DotMatrix
