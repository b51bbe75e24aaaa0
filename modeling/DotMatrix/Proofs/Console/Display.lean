import DotMatrix.Proofs.Console.Pacing
import DotMatrix.Proofs.Memory.Checked
import DotMatrix.Proofs.Processor.Scratch

/-!
# Sessions with and without an LCD

The LCD reads its registers whatever the locks, and stores them back the way a program writes. On
every memory map that can arise this changes nothing, so that a session runs as its machine does
alone.

* `m.Reachable` says that a history of changes makes `m`. Accesses, loads and whole sessions go from
  a reachable memory map to a reachable one (`Console.reachable_of_runs`).
* `MemoryMap.write_readUnlocked` says that writing back the byte of a bank changes nothing.
* `Lcd.step_eq` is a step of the LCD: it takes over the bytes of its registers.
* `Console.steps` takes steps of a session in a row. `Console.lcd_transparent` compares them with
  those of the machine.
-/

namespace DotMatrix

/-! ### Reachable memory maps -/

namespace MemoryMap

/-- A history of changes makes the memory map of an empty one, each change on a disk of its own. -/
def Reachable (m : MemoryMap) : Prop := ∃ history, afterAll history = m

theorem Reachable.wellFormed {m : MemoryMap} (h : m.Reachable) : m.WellFormed := by
  obtain ⟨history, rfl⟩ := h
  exact wellFormed_afterAll history

theorem reachable_empty : Reachable {} := ⟨[], rfl⟩

theorem Reachable.apply {b : Board} (h : b.map.Reachable) (op : Change) :
    (b.apply op).map.Reachable := by
  obtain ⟨history, hm⟩ := h
  exact ⟨(b.disk, op) :: history, by rw [afterAll, hm]⟩

/-- Accesses lead from a reachable memory map to a reachable one. -/
theorem Reachable.of_performs {b b' : Board} {l : List Access} (h : b.map.Reachable)
    (hp : Performs b l b') : b'.map.Reachable := by
  induction hp with
  | nil b => exact h
  | read a _ ih => exact ih h
  | write a v _ ih => exact ih (h.apply (.write a v))

end MemoryMap

/-- A load leads from a reachable memory map to a reachable one, whether it succeeds or not. -/
theorem Cartridge.reachable_load {c : Cartridge} {b : Board} (h : b.map.Reachable) :
    (c.load b).2.map.Reachable := by
  have hattach := h.apply (.attachRam c.ramBanks c.hasBattery c.savePath)
  simp only [Board.apply] at hattach
  unfold load
  split
  · next heq =>
    rw [heq] at hattach
    exact hattach
  · next b₁ heq =>
    rw [heq] at hattach
    split
    · exact hattach
    · next fixed banks hrom =>
      obtain ⟨file, -, hrom⟩ := bind_eq_ok.1 hrom
      cases file with
      | directory => cases hrom
      | file k =>
        obtain ⟨hsize, hrom⟩ := readRom_eq_ok.1 hrom
        obtain ⟨rfl, rfl⟩ := Prod.mk.inj hrom
        have hone : romBankSize ≤ (c.switchBanks + 1) * romBankSize :=
          Nat.le_mul_of_pos_left _ (Nat.succ_pos _)
        have hfixed : ((b₁.disk.bytes k).extract 0 romBankSize).size = 0x4000 := by
          rw [ByteArray.size_extract, Nat.min_eq_left (hone.trans hsize)]
          rfl
        -- The copy is a load of the fixed bank, one of the others, and a selection.
        exact ((hattach.apply (.loadFixedRom _ hfixed)).apply
          (.loadSwitchRom _ c.switchBanks)).apply (.selectRom 0)

namespace Console

variable {s s' : Console}

theorem reachable_of_start {path : String} {options : Options} {d : Disk} {j : Journal}
    (h : start path options d j = .ok s) : s.machine.bus.map.Reachable := by
  obtain ⟨b, -, hload, l, hl⟩ := start_spec h
  have hb : b.map.Reachable := by
    have hr : (s.cartridge.load { disk := d }).2.map.Reachable :=
      Cartridge.reachable_load MemoryMap.reachable_empty
    rwa [hload] at hr
  exact hb.of_performs hl

/-- Whatever program runs, the memory map of a session stays reachable. -/
theorem reachable_of_runs (h : s.machine.bus.map.Reachable) (hr : s.Runs s') :
    s'.machine.bus.map.Reachable := by
  obtain ⟨l, hl⟩ := hr.succeeds.performs
  exact h.of_performs hl

end Console

/-! ### Writing back what is there -/

/-- Replacing a byte by itself changes nothing. -/
theorem Bytes.set_self {b : ByteArray} {i : Nat} {v : UInt8} (h : get? b i = some v) :
    set b i v = b := by
  apply ext_get?
  intro j
  rw [get?_set]
  split
  · next hj => rw [← hj.1, h]
  · rfl

theorem Window.set_self {w : Window} {i o : Nat} {v : UInt8} (h : w.get? i o = some v) :
    w.set i o v = w := by
  have hbanks : w.banks.modify i (·.set o v) = w.banks := by
    apply Array.ext_getElem?
    intro j
    rw [Array.getElem?_modify]
    split
    · next hij =>
      subst hij
      cases hb : w.banks[i]? with
      | none => rfl
      | some bank =>
        rw [get?_of_bank hb] at h
        have hdata : bank.set o v = bank := congrArg (Bank.mk · bank.locked) (Bytes.set_self h)
        rw [Option.map_some, hdata]
    · rfl
  rw [set, hbanks]

namespace MemoryMap

variable {m : MemoryMap} {a : UInt16} {area : Area} {o : Nat}

theorem mapWindow_self {g : Window → Window} (h : g (m.window area) = m.window area) :
    m.mapWindow area g = m := by
  cases m
  cases area <;> simp_all [mapWindow, window]

/-- An unlocked read of a bank that is there gives its byte. -/
theorem readUnlocked_of_banked (hp : Place.of a = .banked area o)
    (hs : (m.window area).selected < (m.window area).banks.size) {v : UInt8}
    (hv : (m.window area).get? (m.window area).selected o = some v) (d : Disk) :
    m.readUnlocked d a = v := by
  have hget : m.get d (.bank area (m.window area).selected o) = .ok v := by simp only [get, hv]
  have hlookup : m.lookup d a = .ok v := by
    rw [lookup, cell_of_banked hp, if_pos hs]
    exact hget
  rw [readUnlocked, hlookup]
  rfl

/-- Writing back what an unlocked read of a bank gives changes nothing, whether the bank is there,
takes writes and is locked or not. -/
theorem WellFormed.write_readUnlocked (h : m.WellFormed) (hp : Place.of a = .banked area o)
    (d : Disk) : m.write d a (m.readUnlocked d a) = (m, d) := by
  rw [MemoryMap.write, cell_of_banked hp]
  by_cases hs : (m.window area).selected < (m.window area).banks.size
  · obtain ⟨v, hv⟩ := Option.isSome_iff_exists.1 (h.get?_isSome hs (Place.lt_bankSize hp))
    rw [if_pos hs, readUnlocked_of_banked hp hs hv]
    dsimp only [MemoryMap.put]
    split
    · rfl
    · rw [mapWindow_self (Window.set_self hv)]
  · rw [if_neg hs]

end MemoryMap

/-! ### A step of the LCD -/

/-- The byte of a register of the input and output area. -/
def MemoryMap.ioByte (m : MemoryMap) (o : Nat) : UInt8 := (m.inputOutput.get? 0 o).getD 0

/-- The registers of the LCD as they stand in memory; 0xFF46 is left out. -/
def MemoryMap.lcdRegisters (m : MemoryMap) : LcdRegisters where
  lcdc := m.ioByte 0x40
  stat := m.ioByte 0x41
  scy := m.ioByte 0x42
  scx := m.ioByte 0x43
  ly := m.ioByte 0x44
  lyc := m.ioByte 0x45
  bgp := m.ioByte 0x47
  obp0 := m.ioByte 0x48
  obp1 := m.ioByte 0x49
  wy := m.ioByte 0x4A
  wx := m.ioByte 0x4B

theorem Place.of_inputOutput {a : UInt16} (h : 0xFF00 ≤ a.toNat) (h' : a.toNat < 0xFF80) :
    Place.of a = .banked .inputOutput (a.toNat - 0xFF00) := by
  have hu : unecho a = a.toNat := if_neg (by omega)
  rw [Place.of_eq, hu, Place.ofNat]
  simp only [if_neg (show ¬ a.toNat < 0xFF00 by omega), if_pos h',
    if_neg (show ¬ a.toNat < 0x4000 by omega), if_neg (show ¬ a.toNat < 0x8000 by omega),
    if_neg (show ¬ a.toNat < 0xA000 by omega), if_neg (show ¬ a.toNat < 0xC000 by omega),
    if_neg (show ¬ a.toNat < 0xD000 by omega), if_neg (show ¬ a.toNat < 0xE000 by omega),
    if_neg (show ¬ a.toNat < 0xFEA0 by omega)]

/-- Input and output has all its bytes, and its one bank is always selected. -/
theorem MemoryMap.WellFormed.readUnlocked_inputOutput {m : MemoryMap} (h : m.WellFormed) (d : Disk)
    {a : UInt16} (ha : 0xFF00 ≤ a.toNat) (ha' : a.toNat < 0xFF80) :
    m.readUnlocked d a = m.ioByte (a.toNat - 0xFF00) := by
  have hp := Place.of_inputOutput ha ha'
  have hsel : (m.window .inputOutput).selected = 0 := (h.fits .inputOutput).selected rfl
  have hcount : (m.window .inputOutput).banks.size = 1 := (h.fits .inputOutput).count nofun
  have hs : (m.window .inputOutput).selected < (m.window .inputOutput).banks.size := by omega
  obtain ⟨v, hv⟩ := Option.isSome_iff_exists.1 (h.get?_isSome hs (Place.lt_bankSize hp))
  have hv₀ : m.inputOutput.get? 0 (a.toNat - 0xFF00) = some v := by rwa [hsel] at hv
  rw [readUnlocked_of_banked hp hs hv, ioByte, hv₀]
  rfl

namespace LcdRegisters

/-- The addresses of the registers. -/
def addresses : List UInt16 :=
  [0xFF40, 0xFF41, 0xFF42, 0xFF43, 0xFF44, 0xFF45, 0xFF47, 0xFF48, 0xFF49, 0xFF4A, 0xFF4B]

/-- The two tables, for loading and for storing, pair the same registers with the same addresses. -/
theorem addressed_ofAddressed (g : UInt16 → UInt8) :
    (ofAddressed g).addressed = addresses.map fun a => (a, g a) := rfl

theorem mem_addresses {a : UInt16} (h : a ∈ addresses) : 0xFF00 ≤ a.toNat ∧ a.toNat < 0xFF80 := by
  have hall : addresses.all fun a => 0xFF00 ≤ a.toNat ∧ a.toNat < 0xFF80 := by decide
  exact of_decide_eq_true (List.all_eq_true.1 hall a h)

end LcdRegisters

/-- Writing back the bytes of addresses that are behind banks changes nothing. -/
theorem Board.foldl_write_readUnlocked {b : Board} (h : b.map.WellFormed) {l : List UInt16}
    (hl : ∀ a ∈ l, ∃ area o, Place.of a = .banked area o) :
    (l.map fun a => (a, b.map.readUnlocked b.disk a)).foldl (fun b (a, v) => Bus.write b a v) b =
      b := by
  induction l with
  | nil => rfl
  | cons a l ih =>
    obtain ⟨area, o, hp⟩ := hl a List.mem_cons_self
    obtain ⟨v, hv⟩ : ∃ v, v = b.map.readUnlocked b.disk a := ⟨_, rfl⟩
    have hwrite : Bus.write b a v = b := by
      show (⟨(b.map.write b.disk a v).1, (b.map.write b.disk a v).2⟩ : Board) = b
      rw [hv, h.write_readUnlocked hp]
    rw [List.map_cons, List.foldl_cons, ← hv]
    dsimp only
    rw [hwrite]
    exact ih fun a ha => hl a (List.mem_cons_of_mem _ ha)

/-- A step of the LCD takes over the bytes of its registers, and leaves the board as it is. -/
theorem Lcd.step_eq {b : Board} (h : b.map.WellFormed) (lcd : Lcd) (cycles : Nat) :
    lcd.step cycles b = ({ regs := b.map.lcdRegisters, mode := lcd.mode }, b) := by
  have hregs : (LcdRegisters.ofAddressed fun a => b.map.readUnlocked b.disk a) =
      b.map.lcdRegisters := by
    have hread (a : UInt16) (ha : a ∈ LcdRegisters.addresses) :
        b.map.readUnlocked b.disk a = b.map.ioByte (a.toNat - 0xFF00) := by
      obtain ⟨hlo, hhi⟩ := LcdRegisters.mem_addresses ha
      exact h.readUnlocked_inputOutput b.disk hlo hhi
    simp only [LcdRegisters.ofAddressed]
    rw [hread 0xFF40 (by decide), hread 0xFF41 (by decide), hread 0xFF42 (by decide),
      hread 0xFF43 (by decide), hread 0xFF44 (by decide), hread 0xFF45 (by decide),
      hread 0xFF47 (by decide), hread 0xFF48 (by decide), hread 0xFF49 (by decide),
      hread 0xFF4A (by decide), hread 0xFF4B (by decide)]
    rfl
  have hboard : (LcdRegisters.ofAddressed fun a => b.map.readUnlocked b.disk a).addressed.foldl
      (fun b (a, v) => Bus.write b a v) b = b := by
    rw [LcdRegisters.addressed_ofAddressed]
    refine Board.foldl_write_readUnlocked h fun a ha => ?_
    obtain ⟨hlo, hhi⟩ := LcdRegisters.mem_addresses ha
    exact ⟨_, _, Place.of_inputOutput hlo hhi⟩
  rw [step]
  dsimp only
  rw [hboard, hregs]

/-! ### Runs -/

/-- A run costs at most 20 cycles a step. -/
theorem Machine.sum_le_of_steps {σ : Type} [Bus σ] {n : Nat} {costs : List Nat} {m m' : Machine σ}
    (h : m.steps n = .ok (costs, m')) : costs.sum ≤ 20 * n := by
  induction n generalizing m costs with
  | zero =>
    cases h
    exact Nat.le_refl 0
  | succ n ih =>
    obtain ⟨c, m₁, hm, -⟩ := m.exists_takes
    have hc := (cycles_of_step hm).2
    rw [steps_succ hm] at h
    cases hr : m₁.steps n with
    | error e =>
      rw [hr] at h
      cases h
    | ok p =>
      rw [hr] at h
      cases h
      have hle := ih hr
      rw [List.sum_cons]
      omega

namespace Console

/-- Take `n` steps of a session; the cycles of each. -/
def steps : Nat → Console → Except Fault (List Nat × Console)
  | 0, s => .ok ([], s)
  | n + 1, s => do
    let (cycles, s) ← s.step
    let (rest, s) ← steps n s
    return (cycles :: rest, s)

variable {s s' : Console} {m : Machine Board} {cycles : Nat}

theorem steps_succ (h : s.step = .ok (cycles, s')) (n : Nat) :
    s.steps (n + 1) = (s'.steps n).map fun p => (cycles :: p.1, p.2) := by
  rw [steps, h]
  show (s'.steps n >>= fun p => pure (cycles :: p.1, p.2)) = _
  cases s'.steps n <;> rfl

/-- A step of a session is a step of its machine, and its cycles are counted. -/
theorem step_eq_of_machine (h : m.bus.map.WellFormed) (hs : s.machine.step = .ok (cycles, m)) :
    s.step = (count s.cycle cycles).map fun cycle =>
      (cycles, { s with
        machine := m
        lcd := { regs := m.bus.map.lcdRegisters, mode := s.lcd.mode }
        cycle := cycle }) := by
  rw [step, hs]
  dsimp only [bind, Except.bind]
  rw [Lcd.step_eq h]
  cases count s.cycle cycles <;> rfl

theorem exists_step_of_machine (h : m.bus.map.WellFormed)
    (hs : s.machine.step = .ok (cycles, m)) (hc : s.cycle.toNat + cycles < UInt32.size) :
    ∃ s', s.step = .ok (cycles, s') ∧ s'.machine = m ∧
      s'.cycle.toNat = s.cycle.toNat + cycles := by
  have hcount : count s.cycle cycles = .ok (UInt32.ofNat (s.cycle.toNat + cycles)) := if_pos hc
  rw [step_eq_of_machine h hs, hcount]
  exact ⟨_, rfl, rfl, UInt32.toNat_ofNat_of_lt hc⟩

theorem step_eq_error_of_machine (h : m.bus.map.WellFormed)
    (hs : s.machine.step = .ok (cycles, m)) (hc : ¬ s.cycle.toNat + cycles < UInt32.size) :
    s.step = .error .counterOverflow := by
  have hcount : count s.cycle cycles = .error .counterOverflow := if_neg hc
  rw [step_eq_of_machine h hs, hcount]
  rfl

/-- The steps of a session are those of its machine while the counter has room for their cycles, and
then they end in a fault. -/
theorem exists_steps (h : s.machine.bus.map.Reachable) (n : Nat) :
    ∃ costs m, s.machine.steps n = .ok (costs, m) ∧
      (s.cycle.toNat + costs.sum < UInt32.size → ∃ s', s.steps n = .ok (costs, s') ∧
        s'.machine = m ∧ s'.cycle.toNat = s.cycle.toNat + costs.sum) ∧
      (UInt32.size ≤ s.cycle.toNat + costs.sum → s.steps n = .error .counterOverflow) := by
  induction n generalizing s with
  | zero =>
    refine ⟨[], s.machine, rfl, fun _ => ⟨s, rfl, rfl, rfl⟩, fun hn => ?_⟩
    exact absurd hn (Nat.not_le_of_lt s.cycle.toNat_lt)
  | succ n ih =>
    obtain ⟨c, m₁, hm, -⟩ := s.machine.exists_takes
    obtain ⟨l, hl⟩ := Machine.performs_of_step hm
    have h₁ : m₁.bus.map.Reachable := h.of_performs hl
    by_cases hc : s.cycle.toNat + c < UInt32.size
    · -- The counter has room for this step; the rest of the run decides.
      obtain ⟨s₁, hs₁, rfl, hcycle⟩ := exists_step_of_machine h₁.wellFormed hm hc
      obtain ⟨costs, m, hrun, hok, herror⟩ := ih h₁
      rw [hcycle, Nat.add_assoc, ← List.sum_cons] at hok herror
      refine ⟨c :: costs, m, ?_, fun hsum => ?_, fun hsum => ?_⟩
      · rw [Machine.steps_succ hm, hrun]
        rfl
      · obtain ⟨s', hs', hrest⟩ := hok hsum
        rw [steps_succ hs₁, hs']
        exact ⟨s', rfl, hrest⟩
      · rw [steps_succ hs₁, herror hsum]
        rfl
    · -- The fault comes with this step.
      obtain ⟨costs, m, hrun, -⟩ := ih (s := { s with machine := m₁ }) h₁
      refine ⟨c :: costs, m, ?_, fun hsum => ?_, fun _ => ?_⟩
      · rw [Machine.steps_succ hm, hrun]
        rfl
      · rw [List.sum_cons] at hsum
        omega
      · rw [steps, step_eq_error_of_machine h₁.wellFormed hm hc]
        rfl

/-- The LCD cannot be noticed. On every memory map that can arise, its step leaves the board as it
is, with all cells, selections and locks, keeps its mode, and takes over the bytes of the addresses
0xFF40 to 0xFF45 and 0xFF47 to 0xFF4B. Any number of steps of a session then have the cycles of as
many steps of its machine, and leave the same machine, with the same board, as long as the counter
has room for the cycles. -/
theorem lcd_transparent {b : Board} (h : b.map.Reachable) :
    (∀ o < 0x80, b.map.inputOutput.get? 0 o = some (b.map.ioByte o)) ∧
    (∀ (lcd : Lcd) (cycles : Nat), (lcd.step cycles b).2 = b ∧
      (lcd.step cycles b).1.mode = lcd.mode ∧
      (lcd.step cycles b).1.regs = b.map.lcdRegisters) ∧
    ∀ s : Console, s.machine.bus = b → ∀ n, ∃ costs m, s.machine.steps n = .ok (costs, m) ∧
      (s.cycle.toNat + costs.sum < UInt32.size → ∃ s', s.steps n = .ok (costs, s') ∧
        s'.machine = m ∧ s'.cycle.toNat = s.cycle.toNat + costs.sum) ∧
      (UInt32.size ≤ s.cycle.toNat + costs.sum → s.steps n = .error .counterOverflow) := by
  refine ⟨fun o ho => ?_, fun lcd cycles => ?_, ?_⟩
  · have hcount : (b.map.window .inputOutput).banks.size = 1 :=
      (h.wellFormed.fits .inputOutput).count nofun
    have hbank : 0 < (b.map.window .inputOutput).banks.size := by omega
    have hsome : (b.map.inputOutput.get? 0 o).isSome := h.wellFormed.get?_isSome hbank ho
    obtain ⟨v, hv⟩ := Option.isSome_iff_exists.1 hsome
    rw [MemoryMap.ioByte, hv]
    rfl
  · rw [Lcd.step_eq h.wellFormed]
    exact ⟨rfl, rfl, rfl⟩
  · rintro s rfl n
    exact exists_steps h n

/-- Five steps of a session on a blank ROM. -/
theorem lcd_transparent_blank :
    ∃ s costs m s', start "a.gb" {} (romDisk blankRom) {} = .ok s ∧
      s.machine.bus.map.Reachable ∧ s.machine.steps 5 = .ok (costs, m) ∧
      s.steps 5 = .ok (costs, s') ∧ s'.machine = m := by
  obtain ⟨s, hs⟩ := exists_start_blankRom {}
  have h := reachable_of_start hs
  obtain ⟨-, -, hruns⟩ := lcd_transparent h
  obtain ⟨costs, m, hrun, hok, -⟩ := hruns s rfl 5
  have hroom : s.cycle.toNat + costs.sum < UInt32.size := by
    have hle := Machine.sum_le_of_steps hrun
    rw [(cycle_of_start hs).2, UInt32.size]
    show 0 + costs.sum < _
    omega
  obtain ⟨s', hs', hm, -⟩ := hok hroom
  exact ⟨s, costs, m, s', hs, h, hrun, hs', hm⟩

end Console

end DotMatrix
