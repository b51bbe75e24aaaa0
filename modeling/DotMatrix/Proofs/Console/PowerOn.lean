import DotMatrix.Proofs.Console.Display
import DotMatrix.Proofs.Processor.Run

/-!
# Powering on

Powering on forgets what the processor did before, and doing it twice is doing it once.

* `Place.fixedCell?` is the cell of an address that leads to it at all times, whatever is selected
  or locked. All addresses of the power-on table have one.
* `WellFormed.get_write_fixed` is a write to such an address. `Board.Stored` says what a row of
  writes leaves, and `Board.stored_foldl` that every row of them does.
* `PowerOn.bootB` is register B, by the bytes of the fixed ROM.
* `Machine.cpu_powerOn` and `Machine.bus_powerOn` are the two halves of a machine that was powered
  on. `Machine.powerOn_forgets` puts them together.
-/

namespace DotMatrix

/-! ### Cells that are always reached -/

/-- The cell of a place in an area with one bank that takes writes and cannot be locked. -/
def Place.fixedCell? : Place → Option Cell
  | banked area o =>
    if area.isRom || area.isSwitched || area.isLockable then none else some (.bank area 0 o)
  | cartridge _ | unusable => none

theorem Place.exists_of_fixedCell? {p : Place} {c : Cell} (h : p.fixedCell? = some c) :
    ∃ area o, p = banked area o ∧ c = .bank area 0 o ∧ area.isRom = false ∧
      area.isSwitched = false ∧ area.isLockable = false := by
  cases p with
  | banked area o =>
    rw [fixedCell?] at h
    split at h
    · cases h
    · next hf =>
      simp only [Bool.or_eq_true, not_or, Bool.not_eq_true] at hf
      exact ⟨area, o, rfl, (Option.some.inj h).symm, hf.1.1, hf.1.2, hf.2⟩
  | cartridge _ | unusable => cases h

theorem Window.Fits.isLocked_eq_false {w : Window} {area : Area} (h : w.Fits area)
    (hl : area.isLockable = false) (i : Nat) : w.isLocked i = false := by
  unfold Window.isLocked
  split
  · next b hb => rw [h.locked i b hb, hl, Bool.false_and]
  · rfl

namespace MemoryMap

variable {m : MemoryMap} {a : UInt16} {c : Cell}

theorem readUnlocked_of_cell {d : Disk} {v : UInt8} (hc : m.cell? a = .ok c)
    (hv : m.get d c = .ok v) : m.readUnlocked d a = v := by
  have hl : m.lookup d a = .ok v := by
    rw [lookup, hc]
    exact hv
  rw [readUnlocked, hl]
  rfl

theorem read_of_cell {d : Disk} {v : UInt8} (hc : m.cell? a = .ok c)
    (hl : m.isLocked c = false) (hv : m.get d c = .ok v) : m.read d a = v := by
  rw [read, hc]
  dsimp only
  rw [hl, hv]
  rfl

namespace WellFormed

/-- An area without switched banks has a first one. -/
theorem banks_pos (h : m.WellFormed) {area : Area} (hs : area.isSwitched = false) :
    0 < (m.window area).banks.size := by
  have hlt := h.selected_lt hs
  rwa [(h.fits area).selected hs] at hlt

theorem cell?_fixed (h : m.WellFormed) (hc : (Place.of a).fixedCell? = some c) :
    m.cell? a = .ok c := by
  obtain ⟨area, o, hp, rfl, -, hs, -⟩ := Place.exists_of_fixedCell? hc
  rw [cell_of_banked hp, if_pos (h.selected_lt hs), (h.fits area).selected hs]

theorem isLocked_fixed (h : m.WellFormed) (hc : (Place.of a).fixedCell? = some c) :
    m.isLocked c = false := by
  obtain ⟨area, o, -, rfl, -, -, hl⟩ := Place.exists_of_fixedCell? hc
  exact (h.fits area).isLocked_eq_false hl 0

/-- A write to a fixed cell goes through, and nowhere else. -/
theorem write_fixed (h : m.WellFormed) (hc : (Place.of a).fixedCell? = some c) (d : Disk)
    (v : UInt8) : ∃ area o, c = .bank area 0 o ∧
      ((m.window area).get? 0 o).isSome ∧
      m.write d a v = (m.mapWindow area (·.set 0 o v), d) := by
  obtain ⟨area, o, hp, rfl, hr, hs, hl⟩ := Place.exists_of_fixedCell? hc
  refine ⟨area, o, rfl, h.get?_isSome (h.banks_pos hs) (Place.lt_bankSize hp), ?_⟩
  rw [MemoryMap.write, h.cell?_fixed hc]
  dsimp only [MemoryMap.put]
  rw [hr, (h.fits area).isLocked_eq_false hl, Bool.or_false, if_neg Bool.false_ne_true]

/-- A write to a fixed cell changes this cell and no other. -/
theorem get_write_fixed (h : m.WellFormed) (hc : (Place.of a).fixedCell? = some c) (d d' : Disk)
    (v : UInt8) (c' : Cell) :
    (m.write d a v).1.get d' c' = if c = c' then .ok v else m.get d' c' := by
  obtain ⟨area, o, rfl, hsome, hw⟩ := h.write_fixed hc d v
  rw [hw]
  cases c' with
  | ram i p =>
    rw [if_neg nofun]
    dsimp only [get]
    rw [ram_mapWindow]
  | bank area' i p =>
    dsimp only [get]
    rw [window_mapWindow]
    by_cases ha : area = area'
    · subst ha
      rw [if_pos rfl, Window.get?_set]
      by_cases he : 0 = i ∧ o = p
      · obtain ⟨rfl, rfl⟩ := he
        rw [if_pos ⟨rfl, rfl, hsome⟩, if_pos rfl]
      · rw [if_neg fun hn => he ⟨hn.1, hn.2.1⟩, if_neg]
        rintro ⟨⟩
        exact he ⟨rfl, rfl⟩
    · rw [if_neg ha, if_neg]
      rintro ⟨⟩
      exact ha rfl

end WellFormed

end MemoryMap

/-! ### A row of writes -/

/-- The byte that a row of writes leaves in a fixed cell: the last one written there. -/
def lastStored? : List (UInt16 × UInt8) → Cell → Option UInt8
  | [], _ => none
  | (a, v) :: l, c =>
    (lastStored? l c).or (if (Place.of a).fixedCell? = some c then some v else none)

theorem lastStored?_eq_none {l : List (UInt16 × UInt8)} {c : Cell}
    (h : ∀ e ∈ l, (Place.of e.1).fixedCell? ≠ some c) : lastStored? l c = none := by
  induction l with
  | nil => rfl
  | cons e l ih =>
    rw [lastStored?, ih fun e he => h e (List.mem_cons_of_mem _ he), Option.none_or,
      if_neg (h e List.mem_cons_self)]

namespace Board

/-- What a row of writes to fixed cells leaves of a board. -/
structure Stored (b b' : Board) (l : List (UInt16 × UInt8)) : Prop where
  setup : b.map.SameSetup b'.map
  ram : b'.map.ram = b.map.ram
  disk : b'.disk = b.disk
  get : ∀ d c, b'.map.get d c =
    match lastStored? l c with
    | some v => .ok v
    | none => b.map.get d c

theorem stored_foldl {b : Board} (h : b.map.WellFormed) {l : List (UInt16 × UInt8)}
    (hl : ∀ e ∈ l, (Place.of e.1).fixedCell?.isSome) :
    b.Stored (l.foldl (fun b (a, v) => Bus.write b a v) b) l := by
  induction l generalizing b with
  | nil => exact ⟨.refl b.map, rfl, rfl, fun _ _ => rfl⟩
  | cons e l ih =>
    obtain ⟨a, v⟩ := e
    obtain ⟨c, hc⟩ := Option.isSome_iff_exists.1 (hl _ List.mem_cons_self)
    obtain ⟨area, o, -, -, hw⟩ := h.write_fixed hc b.disk v
    have hb : Bus.write b a v = ⟨(b.map.write b.disk a v).1, b.disk⟩ := by
      show (⟨(b.map.write b.disk a v).1, (b.map.write b.disk a v).2⟩ : Board) = _
      rw [hw]
    have hram : (b.map.write b.disk a v).1.ram = b.map.ram := by rw [hw, MemoryMap.ram_mapWindow]
    rw [List.foldl_cons]
    dsimp only
    rw [hb]
    have ih := ih (b := ⟨(b.map.write b.disk a v).1, b.disk⟩) (h.write b.disk a v)
      fun e he => hl e (List.mem_cons_of_mem _ he)
    refine ⟨(MemoryMap.sameSetup_write b.map b.disk a v).trans ih.setup, ih.ram.trans hram, ih.disk,
      fun d c' => ?_⟩
    -- This write counts where none of the later ones goes.
    rw [ih.get d c', lastStored?, hc]
    cases lastStored? l c' with
    | some w => rfl
    | none =>
      dsimp only
      rw [h.get_write_fixed hc, Option.none_or]
      by_cases he : c = c'
      · rw [if_pos he, if_pos (congrArg some he)]
      · rw [if_neg he, if_neg fun hn => he (Option.some.inj hn)]

end Board

/-! ### The fixed ROM and register B -/

/-- The byte of the fixed ROM at an offset. -/
def MemoryMap.romByte (m : MemoryMap) (o : Nat) : UInt8 := (m.fixedRom.get? 0 o).getD 0

theorem MemoryMap.romByte_loadFixedRom (m : MemoryMap) (data : ByteArray) (o : Nat) :
    (m.loadFixedRom data).romByte o = (Bytes.get? data o).getD 0 := rfl

namespace MemoryMap.WellFormed

variable {m : MemoryMap} (h : m.WellFormed)
include h

/-- The fixed ROM has all its bytes. -/
theorem get?_fixedRom {o : Nat} (ho : o < 0x4000) : m.fixedRom.get? 0 o = some (m.romByte o) := by
  have hpos : 0 < (m.window .fixedRom).banks.size := h.banks_pos rfl
  have hsome : (m.fixedRom.get? 0 o).isSome := h.get?_isSome hpos ho
  obtain ⟨v, hv⟩ := Option.isSome_iff_exists.1 hsome
  rw [romByte, hv, Option.getD_some]

theorem read_fixedRom (d : Disk) {a : UInt16} (ha : a.toNat < 0x4000) :
    m.read d a = m.romByte a.toNat := by
  refine read_of_banked (Place.of_fixedRom ha) ((h.fits .fixedRom).isLocked_eq_false rfl _) ?_ d
  rw [(h.fits .fixedRom).selected rfl]
  exact h.get?_fixedRom ha

end MemoryMap.WellFormed

namespace PowerOn

/-- Register B in the power-on state, by the bytes of the fixed ROM: the sum of the title of a game
by the console's own publisher, whose codes are 0x01, or 0x33 and the digits 0 and 1. -/
def bootB (rom : Nat → UInt8) : UInt8 :=
  if rom 0x14B = 0x01 ∨ rom 0x14B = 0x33 ∧ rom 0x144 = 0x30 ∧ rom 0x145 = 0x31 then
    UInt8.ofNat ((List.range 16).map fun i => (rom (0x134 + i)).toNat).sum
  else 0

/-- The registers in the power-on state, one by one. -/
theorem registers_eq (b : UInt8) :
    registers b =
      { a := 0x11, f := 0x80, b := b, c := 0, d := 0, e := 0
        h := if b = 0x43 ∨ b = 0x58 then 0x99 else 0x00
        l := if b = 0x43 ∨ b = 0x58 then 0x1A else 0x7C
        sp := 0xFFFE, pc := 0x0100 } := by
  have hb : (b == 0x43 || b == 0x58) = decide (b = 0x43 ∨ b = 0x58) := (Bool.decide_or ..).symm
  unfold registers
  rw [hb]
  by_cases h : b = 0x43 ∨ b = 0x58
  · rw [decide_eq_true h, if_pos rfl, if_pos h, if_pos h]
    rfl
  · rw [decide_eq_false h, if_neg Bool.false_ne_true, if_neg h, if_neg h]
    rfl

theorem licensed_iff (old new₁ new₂ : UInt8) :
    licensed old new₁ new₂ = true ↔ old = 0x01 ∨ old = 0x33 ∧ new₁ = 0x30 ∧ new₂ = 0x31 := by
  simp [licensed, and_assoc]

/-- The title is in the fixed ROM. -/
theorem toNat_lt_of_mem_titleAddresses {a : UInt16} (ha : a ∈ titleAddresses) :
    a.toNat < 0x4000 := by
  obtain ⟨i, hi, rfl⟩ := List.mem_map.1 ha
  have hi : i < 16 := List.mem_range.1 hi
  rw [UInt16.toNat_ofNat', Nat.mod_eq_of_lt] <;> omega

theorem sum_titleAddresses (rom : Nat → UInt8) :
    (titleAddresses.map fun a => (rom a.toNat).toNat).sum =
      ((List.range 16).map fun i => (rom (0x134 + i)).toNat).sum := rfl

/-- Every address of the table has a cell of its own that is always reached. -/
theorem exists_cell_of_mem_table {e : UInt16 × UInt8} (he : e ∈ table) :
    ∃ c, (Place.of e.1).fixedCell? = some c ∧ lastStored? table c = some e.2 := by
  have hall : table.all fun e =>
      (Place.of e.1).fixedCell?.any fun c => lastStored? table c == some e.2 := by
    decide +kernel
  obtain ⟨c, hc, hv⟩ := (Option.any_eq_true _ _).1 (List.all_eq_true.1 hall e he)
  exact ⟨c, hc, beq_iff_eq.1 hv⟩

end PowerOn

/-! ### Machines -/

namespace Machine

/-- The sum of the bytes of a board; the board stays as it is. -/
theorem sumBytes_board (m : Machine Board) (as : List UInt16) :
    (m.sumBytes as).1 =
        UInt8.ofNat (as.map fun a => (m.bus.map.read m.bus.disk a).toNat).sum ∧
      (m.sumBytes as).2.bus = m.bus := by
  rw [← UInt8.zero_add (UInt8.ofNat _)]
  unfold sumBytes
  -- The induction is on the addresses, from any sum so far.
  generalize (0 : UInt8) = sum
  induction as generalizing sum m with
  | nil => exact ⟨(UInt8.add_zero sum).symm, rfl⟩
  | cons a as ih =>
    rw [List.foldl_cons, List.map_cons, List.sum_cons, UInt8.ofNat_add, UInt8.ofNat_toNat,
      ← UInt8.add_assoc]
    exact ih (m.sample a).2 (sum + (m.sample a).1)

variable {m : Machine Board}

/-- The title is added up from the fixed ROM. -/
theorem fst_sumBytes_title (h : m.bus.map.WellFormed) :
    (m.sumBytes PowerOn.titleAddresses).1 =
      UInt8.ofNat ((List.range 16).map fun i => (m.bus.map.romByte (0x134 + i)).toNat).sum := by
  have hread : ∀ a ∈ PowerOn.titleAddresses,
      (m.bus.map.read m.bus.disk a).toNat = (m.bus.map.romByte a.toNat).toNat := by
    intro a ha
    rw [h.read_fixedRom m.bus.disk (PowerOn.toNat_lt_of_mem_titleAddresses ha)]
  rw [(m.sumBytes_board _).1, List.map_congr_left hread, PowerOn.sum_titleAddresses]

/-- The bytes that register B depends on are read, and the title is added up if the codes ask for
it. -/
def sampleB {σ : Type} [Bus σ] (m : Machine σ) : UInt8 × Machine σ :=
  let (old, m) := m.sample 0x014B
  let (new₁, m) := m.sample 0x0144
  let (new₂, m) := m.sample 0x0145
  if PowerOn.licensed old new₁ new₂ then m.sumBytes PowerOn.titleAddresses else (0, m)

theorem powerOn_eq {σ : Type} [Bus σ] (m : Machine σ) :
    m.powerOn =
      let p := sampleB { m with cpu := m.cpu.reset }
      PowerOn.table.foldl (fun m (a, v) => m.put a v)
        { p.2 with
          cpu := { p.2.cpu with regs := PowerOn.registers p.1, flags := .ofByte 0x80 } } := rfl

/-- Register B depends on the fixed ROM alone. -/
theorem sampleB_board (h : m.bus.map.WellFormed) :
    m.sampleB.1 = PowerOn.bootB m.bus.map.romByte ∧ m.sampleB.2.bus = m.bus ∧
      m.sampleB.2.cpu = m.cpu := by
  have hold : (m.sample 0x014B).1 = m.bus.map.romByte 0x14B :=
    h.read_fixedRom m.bus.disk (by decide)
  have hnew₁ : ((m.sample 0x014B).2.sample 0x0144).1 = m.bus.map.romByte 0x144 :=
    h.read_fixedRom m.bus.disk (by decide)
  have hnew₂ : (((m.sample 0x014B).2.sample 0x0144).2.sample 0x0145).1 = m.bus.map.romByte 0x145 :=
    h.read_fixedRom m.bus.disk (by decide)
  unfold sampleB PowerOn.bootB
  dsimp only
  rw [hold, hnew₁, hnew₂]
  by_cases hl : PowerOn.licensed (m.bus.map.romByte 0x14B) (m.bus.map.romByte 0x144)
      (m.bus.map.romByte 0x145) = true
  · rw [if_pos hl, if_pos ((PowerOn.licensed_iff _ _ _).1 hl)]
    exact ⟨fst_sumBytes_title (m := (((m.sample 0x014B).2.sample 0x0144).2.sample 0x0145).2) h,
      (sumBytes_board _ _).2, cpu_sumBytes _ _⟩
  · rw [if_neg hl, if_neg fun hn => hl ((PowerOn.licensed_iff _ _ _).2 hn)]
    exact ⟨rfl, rfl, rfl⟩

theorem cpu_powerOn (h : m.bus.map.WellFormed) :
    m.powerOn.cpu =
      { m.cpu.reset with
        regs := PowerOn.registers (PowerOn.bootB m.bus.map.romByte)
        flags := .ofByte 0x80 } := by
  obtain ⟨hb, -, hcpu⟩ := sampleB_board (m := { m with cpu := m.cpu.reset }) h
  rw [powerOn_eq]
  dsimp only
  rw [cpu_putAll, hb, hcpu]

theorem bus_powerOn (h : m.bus.map.WellFormed) :
    m.powerOn.bus = PowerOn.table.foldl (fun b (a, v) => Bus.write b a v) m.bus := by
  obtain ⟨-, hbus, -⟩ := sampleB_board (m := { m with cpu := m.cpu.reset }) h
  rw [powerOn_eq]
  dsimp only
  rw [bus_putAll, hbus]

/-- What powering on leaves of the board. -/
theorem stored_powerOn (h : m.bus.map.WellFormed) :
    m.bus.Stored m.powerOn.bus PowerOn.table := by
  rw [bus_powerOn h]
  refine Board.stored_foldl h fun e he => ?_
  obtain ⟨c, hc, -⟩ := PowerOn.exists_cell_of_mem_table he
  rw [hc]
  rfl

/-- Every address of the table reaches a cell with the value of the table. -/
theorem get_powerOn (h : m.bus.map.WellFormed) {e : UInt16 × UInt8} (he : e ∈ PowerOn.table)
    {c : Cell} (hc : (Place.of e.1).fixedCell? = some c) (d : Disk) :
    m.powerOn.bus.map.get d c = .ok e.2 := by
  obtain ⟨c', hc', hv⟩ := PowerOn.exists_cell_of_mem_table he
  obtain rfl : c' = c := Option.some.inj (hc'.symm.trans hc)
  rw [(stored_powerOn h).get, hv]

/-- The cells that no address of the table reaches stay as they are. -/
theorem get_powerOn_of_ne (h : m.bus.map.WellFormed) {c : Cell}
    (hc : ∀ e ∈ PowerOn.table, m.bus.map.cell? e.1 ≠ .ok c) (d : Disk) :
    m.powerOn.bus.map.get d c = m.bus.map.get d c := by
  rw [(stored_powerOn h).get, lastStored?_eq_none fun e he hn => hc e he (h.cell?_fixed hn)]

theorem reachable_powerOn (h : m.bus.map.Reachable) : m.powerOn.bus.map.Reachable := by
  obtain ⟨l, hl⟩ := m.performs_powerOn
  exact h.of_performs hl

/-- Writing the table once more changes nothing. -/
theorem bus_powerOn_powerOn (h : m.bus.map.Reachable) : m.powerOn.powerOn.bus = m.powerOn.bus := by
  have hw := (reachable_powerOn h).wellFormed
  have hread : ∀ e ∈ PowerOn.table,
      (e.1, m.powerOn.bus.map.readUnlocked m.powerOn.bus.disk e.1) = e := by
    intro e he
    obtain ⟨c, hc, -⟩ := PowerOn.exists_cell_of_mem_table he
    rw [MemoryMap.readUnlocked_of_cell (hw.cell?_fixed hc) (get_powerOn h.wellFormed he hc _)]
  have htable : PowerOn.table = (PowerOn.table.map Prod.fst).map
      fun a => (a, m.powerOn.bus.map.readUnlocked m.powerOn.bus.disk a) := by
    rw [List.map_map]
    exact ((List.map_congr_left hread).trans (List.map_id' _)).symm
  -- Every address of the table is written with what it reads.
  rw [bus_powerOn hw, htable]
  refine Board.foldl_write_readUnlocked hw fun a ha => ?_
  obtain ⟨e, he, rfl⟩ := List.mem_map.1 ha
  obtain ⟨c, hc, -⟩ := PowerOn.exists_cell_of_mem_table he
  obtain ⟨area, o, hp, -⟩ := Place.exists_of_fixedCell? hc
  exact ⟨area, o, hp⟩

/-- The processor is in the power-on state already. -/
theorem cpu_powerOn_powerOn (h : m.bus.map.Reachable) : m.powerOn.powerOn.cpu = m.powerOn.cpu := by
  have hrom : m.powerOn.bus.map.fixedRom = m.bus.map.fixedRom :=
    (stored_powerOn h.wellFormed).setup.rom .fixedRom rfl
  have hbytes : m.powerOn.bus.map.romByte = m.bus.map.romByte := by
    funext o
    rw [MemoryMap.romByte, hrom, MemoryMap.romByte]
  rw [cpu_powerOn (reachable_powerOn h).wellFormed, hbytes, cpu_powerOn h.wellFormed]
  rfl

/-- Powering on depends on no history. Of the processor before it keeps the flag rules and the
record of the last instruction; register B comes from the fixed ROM, and HL from B. Of the memory map
the addresses of the table hold its values afterwards, and every other cell, the banks, the
selections, the locks, the cartridge RAM and the disk stay. Powering on again changes nothing. -/
theorem powerOn_forgets (h : m.bus.map.Reachable) :
    let rom := m.bus.map.romByte
    let b := PowerOn.bootB rom
    let m' := m.powerOn
    (∀ o < 0x4000, m.bus.map.fixedRom.get? 0 o = some (rom o)) ∧
    m'.cpu =
      { regs :=
          { a := 0x11, f := 0x80, b := b, c := 0, d := 0, e := 0
            h := if b = 0x43 ∨ b = 0x58 then 0x99 else 0x00
            l := if b = 0x43 ∨ b = 0x58 then 0x1A else 0x7C
            sp := 0xFFFE, pc := 0x0100 }
        flags := .ofByte 0x80
        ime := false, halted := false, stopped := false, stopLines := 0x0F, request := .none
        accesses := 0
        rules := m.cpu.rules, last := m.cpu.last } ∧
    m'.cpu.regs.af = 0x1180 ∧
    m'.cpu.regs.hl = (if b = 0x43 ∨ b = 0x58 then 0x991A else 0x007C) ∧
    (∀ e ∈ PowerOn.table, ∃ c, m'.bus.map.cell? e.1 = .ok c ∧
      m'.bus.map.get m'.bus.disk c = .ok e.2 ∧ m'.bus.map.read m'.bus.disk e.1 = e.2) ∧
    (∀ c, (∀ e ∈ PowerOn.table, m.bus.map.cell? e.1 ≠ .ok c) →
      m'.bus.map.get m'.bus.disk c = m.bus.map.get m.bus.disk c) ∧
    m.bus.map.SameSetup m'.bus.map ∧ m'.bus.map.ram = m.bus.map.ram ∧ m'.bus.disk = m.bus.disk ∧
    m'.powerOn.cpu = m'.cpu ∧ m'.powerOn.bus = m'.bus := by
  intro rom b m'
  have hw := h.wellFormed
  have hw' : m'.bus.map.WellFormed := (reachable_powerOn h).wellFormed
  have hs : m.bus.Stored m'.bus PowerOn.table := stored_powerOn hw
  have hcpu := cpu_powerOn hw
  rw [PowerOn.registers_eq] at hcpu
  refine ⟨fun o ho => hw.get?_fixedRom ho, hcpu, ?_, ?_, fun e he => ?_, fun c hc => ?_, hs.setup,
    hs.ram, hs.disk, cpu_powerOn_powerOn h, bus_powerOn_powerOn h⟩
  · rw [hcpu]
    show Word.ofBytes 0x11 (0x80 &&& 0xF0) = 0x1180
    decide
  · rw [hcpu]
    show Word.ofBytes (if b = 0x43 ∨ b = 0x58 then 0x99 else 0x00)
      (if b = 0x43 ∨ b = 0x58 then 0x1A else 0x7C) = _
    split <;> rfl
  · obtain ⟨c, hc, -⟩ := PowerOn.exists_cell_of_mem_table he
    have hv := get_powerOn hw he hc m'.bus.disk
    have hcell := hw'.cell?_fixed hc
    exact ⟨c, hcell, hv, MemoryMap.read_of_cell hcell (hw'.isLocked_fixed hc) hv⟩
  · rw [hs.disk]
    exact get_powerOn_of_ne hw hc m.bus.disk

end Machine

/-- A bank of zeros with the code of the publisher and a title that adds up to 0x43. -/
def PowerOn.gameRom : ByteArray :=
  Bytes.set (Bytes.set (Bytes.zeros 0x4000) 0x134 0x43) 0x14B 0x01

theorem PowerOn.size_gameRom : gameRom.size = 0x4000 := by
  rw [gameRom, Bytes.size_set, Bytes.size_set, Bytes.size_zeros]

theorem PowerOn.get?_gameRom (o : Nat) :
    (Bytes.get? gameRom o).getD 0 =
      if 0x14B = o then 0x01 else if 0x134 = o then 0x43 else 0 := by
  rw [gameRom, Bytes.get?_set, Bytes.get?_set, Bytes.size_set, Bytes.size_zeros, Bytes.get?_zeros]
  by_cases h₁ : 0x14B = o
  · subst h₁
    rfl
  · by_cases h₂ : 0x134 = o
    · subst h₂
      rfl
    · rw [if_neg fun h => h₁ h.1, if_neg fun h => h₂ h.1, if_neg h₁, if_neg h₂]
      split <;> rfl

/-- A game of the publisher, switched on while a request of EI is pending. -/
theorem Machine.powerOn_forgets_game :
    let m : Machine Board :=
      { cpu :=
          { regs := { b := 7, pc := 0x1234 }, ime := true, halted := true, stopLines := 3
            request := .armed true, accesses := 5 }
        bus := { map := .afterAll [({}, .loadFixedRom PowerOn.gameRom PowerOn.size_gameRom)] } }
    m.powerOn.cpu.regs.b = 0x43 ∧ m.powerOn.cpu.regs.hl = 0x991A ∧
      m.powerOn.cpu.request = .none ∧
      m.powerOn.bus.map.read m.powerOn.bus.disk 0xFF40 = 0x91 := by
  intro m
  obtain ⟨-, hcpu, -, hhl, htable, -⟩ := powerOn_forgets (m := m) ⟨_, rfl⟩
  have hrom : m.bus.map.romByte = fun o =>
      if 0x14B = o then 0x01 else if 0x134 = o then 0x43 else 0 :=
    funext fun o => (MemoryMap.romByte_loadFixedRom {} _ o).trans (PowerOn.get?_gameRom o)
  have hb : PowerOn.bootB m.bus.map.romByte = 0x43 := by
    rw [hrom]
    decide
  obtain ⟨c, -, -, hread⟩ := htable (0xFF40, 0x91) (by decide)
  have hregs : m.powerOn.cpu.regs.b = PowerOn.bootB m.bus.map.romByte := by rw [hcpu]
  exact ⟨hregs.trans hb, hhl.trans (if_pos (.inl hb)), by rw [hcpu], hread⟩

end DotMatrix
