import DotMatrix.Memory.Region

/-!
# What is behind an address

`Place.ofNat` is the address space without its echo, written out in numbers, and `unecho` is the
number that an address stands for there. `Place.of_eq` says that the two together are `Place.of`,
and `Place.inBank_of` that the offset which an address leads to is inside a bank.
-/

namespace DotMatrix

/-- The first address of a region and the first one past it. -/
def Region.range : Region → Nat × Nat
  | fixedRom => (0x0000, 0x4000)
  | switchRom => (0x4000, 0x8000)
  | videoRam => (0x8000, 0xA000)
  | cartridgeRam => (0xA000, 0xC000)
  | fixedWork => (0xC000, 0xD000)
  | switchWork => (0xD000, 0xE000)
  | echo => (0xE000, 0xFE00)
  | objects => (0xFE00, 0xFEA0)
  | unusable => (0xFEA0, 0xFF00)
  | inputOutput => (0xFF00, 0xFF80)
  | highRam => (0xFF80, 0xFFFF)
  | enable => (0xFFFF, 0x10000)

theorem Region.toNat_base (r : Region) : r.base.toNat = r.range.1 := by
  cases r <;> rfl

/-- An address lies in its region. -/
theorem Region.mem_range (a : UInt16) :
    (Region.of a).range.1 ≤ a.toNat ∧ a.toNat < (Region.of a).range.2 := by
  have hn := a.toNat_lt
  fun_cases Region.of a
  case case1 h => exact ⟨Nat.zero_le _, h⟩
  case case12 h => exact ⟨Nat.le_of_not_lt h, hn⟩
  all_goals exact ⟨Nat.le_of_not_lt ‹¬ _›, ‹_›⟩

/-- The number that an address stands for: an echo address repeats the one 0x2000 below it. -/
def unecho (a : UInt16) : Nat :=
  if 0xE000 ≤ a.toNat ∧ a.toNat < 0xFE00 then a.toNat - 0x2000 else a.toNat

theorem unecho_lt (a : UInt16) : unecho a < 0x10000 := by
  have hn := a.toNat_lt
  unfold unecho
  split <;> omega

theorem unecho_not_echo (a : UInt16) : unecho a < 0xE000 ∨ 0xFE00 ≤ unecho a := by
  unfold unecho
  split <;> omega

/-- An echo address stands for the same number as the work RAM address below it. -/
theorem unecho_sub {a : UInt16} (h₁ : 0xE000 ≤ a.toNat) (h₂ : a.toNat < 0xFE00) :
    unecho a = unecho (a - 0x2000) := by
  have hs : (a - 0x2000).toNat = a.toNat - 0x2000 := by
    refine UInt16.toNat_sub_of_le a 0x2000 (UInt16.le_iff_toNat_le.2 ?_)
    show 0x2000 ≤ a.toNat
    omega
  rw [unecho, if_pos ⟨h₁, h₂⟩, unecho, hs, if_neg (by omega)]

/-- What is behind the address `n`, which is not an echo. -/
def Place.ofNat (n : Nat) : Place :=
  if n < 0x4000 then .banked .fixedRom n
  else if n < 0x8000 then .banked .switchRom (n - 0x4000)
  else if n < 0xA000 then .banked .videoRam (n - 0x8000)
  else if n < 0xC000 then .cartridge (n - 0xA000)
  else if n < 0xD000 then .banked .fixedWork (n - 0xC000)
  else if n < 0xE000 then .banked .switchWork (n - 0xD000)
  else if n < 0xFEA0 then .banked .objects (n - 0xFE00)
  else if n < 0xFF00 then .unusable
  else if n < 0xFF80 then .banked .inputOutput (n - 0xFF00)
  else if n < 0xFFFF then .banked .highRam (n - 0xFF80)
  else .banked .enable (n - 0xFFFF)

theorem Place.of_eq (a : UInt16) : Place.of a = Place.ofNat (unecho a) := by
  have h := Region.mem_range a
  unfold Place.of Region.offset
  rw [Region.toNat_base]
  generalize Region.of a = r at h ⊢
  cases r
  case echo =>
    obtain ⟨h₁, h₂⟩ : 0xE000 ≤ a.toNat ∧ a.toNat < 0xFE00 := h
    obtain ⟨m, hm⟩ : ∃ m, a.toNat = m + 0x2000 := ⟨a.toNat - 0x2000, by omega⟩
    have hu : unecho a = m := by
      rw [unecho, if_pos ⟨h₁, h₂⟩, hm, Nat.add_sub_cancel]
    have ho : a.toNat - Region.echo.range.1 = m - 0xC000 := by
      rw [hm]
      exact Nat.add_sub_add_right m 0x2000 0xC000
    have hb : 0xC000 ≤ m ∧ m < 0xDE00 := by omega
    rw [hu, Place.ofNat]
    dsimp only
    rw [ho, Nat.sub_sub]
    -- Work RAM is repeated in full, the switched bank up to 0xDDFF.
    by_cases hd : m < 0xD000
    · rw [if_pos (by omega), if_neg (by omega), if_neg (by omega), if_neg (by omega),
        if_neg (by omega), if_pos hd]
    · rw [if_neg (by omega), if_neg (by omega), if_neg (by omega), if_neg (by omega),
        if_neg (by omega), if_neg hd, if_pos (by omega)]
  all_goals
    dsimp only [Region.range] at h ⊢
    rw [unecho, if_neg (by omega), Place.ofNat]
    generalize a.toNat = n at h
    grind only

namespace Place

/-- The offset, if there is one, is inside a bank. -/
def InBank : Place → Prop
  | banked area o => o < area.bankSize
  | cartridge o => o < 0x2000
  | unusable => True

/-- An address leads to an offset inside a bank, or nowhere. -/
theorem inBank_of (a : UInt16) : (Place.of a).InBank := by
  have hl := unecho_lt a
  have he := unecho_not_echo a
  rw [Place.of_eq]
  generalize unecho a = n at hl he
  fun_cases Place.ofNat n <;> simp only [InBank, Area.bankSize] <;> omega

theorem lt_bankSize {a : UInt16} {area : Area} {o : Nat} (h : Place.of a = .banked area o) :
    o < area.bankSize := by
  have hb := inBank_of a
  rwa [h] at hb

theorem lt_of_cartridge {a : UInt16} {o : Nat} (h : Place.of a = .cartridge o) : o < 0x2000 := by
  have hb := inBank_of a
  rwa [h] at hb

end Place

end DotMatrix
