import DotMatrix.Text.Hex

/-!
# Bank controllers

One byte of a cartridge's header names the controller that switches its banks, and what else is on
the board: RAM, a battery, a timer, a rumble motor.

`Controller.ofCode` and `Controller.code` read and write that byte; a code that names no controller
is kept as it is.
-/

namespace DotMatrix

/-- A bank controller. -/
inductive Controller
  | none
  | noneRam
  | noneBatteryRam
  | mbc1
  | mbc1Ram
  | mbc1BatteryRam
  | mbc2
  | mbc2Battery
  | mbc3
  | mbc3Ram
  | mbc3BatteryRam
  | mbc3BatteryTimer
  | mbc3BatteryRamTimer
  | mbc5
  | mbc5Ram
  | mbc5BatteryRam
  | mbc5Rumble
  | mbc5RumbleRam
  | mbc5RumbleBatteryRam
  | mbc6
  | huC3
  | huC1
  /-- A code that names no controller: no RAM of its own and no battery. -/
  | unknown (code : UInt8)
  deriving DecidableEq, Repr

namespace Controller

/-- The controllers that have a code, with it. -/
def codes : List (UInt8 × Controller) :=
  [(0x00, none), (0x01, mbc1), (0x02, mbc1Ram), (0x03, mbc1BatteryRam), (0x05, mbc2),
    (0x06, mbc2Battery), (0x08, noneRam), (0x09, noneBatteryRam), (0x0F, mbc3BatteryTimer),
    (0x10, mbc3BatteryRamTimer), (0x11, mbc3), (0x12, mbc3Ram), (0x13, mbc3BatteryRam),
    (0x19, mbc5), (0x1A, mbc5Ram), (0x1B, mbc5BatteryRam), (0x1C, mbc5Rumble),
    (0x1D, mbc5RumbleRam), (0x1E, mbc5RumbleBatteryRam), (0x20, mbc6), (0xFE, huC3), (0xFF, huC1)]

/-- The controller that a code names. -/
def ofCode (code : UInt8) : Controller := (codes.lookup code).getD (unknown code)

/-- The code that names a controller. -/
def code : Controller → UInt8
  | none => 0x00
  | mbc1 => 0x01
  | mbc1Ram => 0x02
  | mbc1BatteryRam => 0x03
  | mbc2 => 0x05
  | mbc2Battery => 0x06
  | noneRam => 0x08
  | noneBatteryRam => 0x09
  | mbc3BatteryTimer => 0x0F
  | mbc3BatteryRamTimer => 0x10
  | mbc3 => 0x11
  | mbc3Ram => 0x12
  | mbc3BatteryRam => 0x13
  | mbc5 => 0x19
  | mbc5Ram => 0x1A
  | mbc5BatteryRam => 0x1B
  | mbc5Rumble => 0x1C
  | mbc5RumbleRam => 0x1D
  | mbc5RumbleBatteryRam => 0x1E
  | mbc6 => 0x20
  | huC3 => 0xFE
  | huC1 => 0xFF
  | unknown c => c

/-- Whether the cartridge has a battery, so that its RAM outlasts power-off. A timer with a battery
counts, though only RAM gets a save file. -/
def hasBattery : Controller → Bool
  | noneBatteryRam | mbc1BatteryRam | mbc2Battery | mbc3BatteryTimer | mbc3BatteryRamTimer
  | mbc3BatteryRam | mbc5BatteryRam | mbc5RumbleBatteryRam => true
  | _ => false

/-- The banks of RAM inside the controller itself. -/
def builtInRamBanks : Controller → Nat
  | mbc2 | mbc2Battery => 1
  | _ => 0

theorem builtInRamBanks_le (k : Controller) : k.builtInRamBanks ≤ 1 := by
  unfold builtInRamBanks
  split <;> decide

/-- The name of a controller in a message. -/
def text : Controller → String
  | none => "ROM ONLY"
  | noneRam => "ROM+RAM"
  | noneBatteryRam => "ROM+RAM+BATTERY"
  | mbc1 => "MBC1"
  | mbc1Ram => "MBC1+RAM"
  | mbc1BatteryRam => "MBC1+RAM+BATTERY"
  | mbc2 => "MBC2"
  | mbc2Battery => "MBC2+BATTERY"
  | mbc3 => "MBC3"
  | mbc3Ram => "MBC3+RAM"
  | mbc3BatteryRam => "MBC3+RAM+BATTERY"
  | mbc3BatteryTimer => "MBC3+TIMER+BATTERY"
  | mbc3BatteryRamTimer => "MBC3+TIMER+RAM+BATTERY"
  | mbc5 => "MBC5"
  | mbc5Ram => "MBC5+RAM"
  | mbc5BatteryRam => "MBC5+RAM+BATTERY"
  | mbc5Rumble => "MBC5+RUMBLE"
  | mbc5RumbleRam => "MBC5+RUMBLE+RAM"
  | mbc5RumbleBatteryRam => "MBC5+RUMBLE+RAM+BATTERY"
  | mbc6 => "MBC6"
  | huC3 => "HuC3"
  | huC1 => "HuC1+RAM+BATTERY"
  | unknown c => "unknown (" ++ Hex.byte0x c ++ ")"

theorem code_of_lookup {c : UInt8} {k : Controller} {l : List (UInt8 × Controller)}
    (hl : ∀ p ∈ l, p.2.code = p.1) (h : l.lookup c = some k) : k.code = c := by
  induction l with
  | nil => cases h
  | cons p l ih =>
    rw [List.lookup_cons] at h
    split at h
    · next hc =>
      cases h
      rw [hl p List.mem_cons_self]
      exact (beq_iff_eq.1 hc).symm
    · exact ih (fun q hq => hl q (List.mem_cons_of_mem p hq)) h

/-- Reading a code and writing it again gives the code back. -/
@[simp] theorem code_ofCode (c : UInt8) : (ofCode c).code = c := by
  unfold ofCode
  cases h : codes.lookup c with
  | none => rfl
  | some k => exact code_of_lookup (by decide) h

end Controller

end DotMatrix
