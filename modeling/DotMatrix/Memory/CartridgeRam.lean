import DotMatrix.Memory.Error

/-!
# Cartridge RAM

A cartridge may carry RAM in banks of 0x2000 bytes. RAM with a battery lives in a save file, so
that it outlasts the session; RAM without one is a byte array. Byte `o` of bank `i` is at position
`i * 0x2000 + o` of either.

* `CartridgeRam.ofBanks` and `CartridgeRam.openSave` make the two kinds. The size in bytes is a number
  of 64 bits: they are about fewer than 2^51 banks, and a cartridge has 16 at most.
* `CartridgeRam.read` and `CartridgeRam.write` check the bank; `CartridgeRam.put` writes to a bank
  that was checked.
-/

namespace DotMatrix

/-- Why an address has no byte. -/
inductive Miss
  /-- Nothing is mapped there. -/
  | unusable
  /-- An error of the memory behind it. -/
  | failed (e : MemoryError)
  /-- An offset past the end of a bank. -/
  | pastEnd (offset : Nat)
  deriving DecidableEq, Repr

/-- The RAM of a cartridge. -/
inductive CartridgeRam
  | none
  | volatile (data : ByteArray) (banks : Nat)
  | persistent (handle : Handle) (path : String) (banks : Nat)
  deriving DecidableEq

namespace CartridgeRam

/-- The size of a bank. -/
def bankSize : Nat := 0x2000

/-- RAM without a battery, for fewer than 2^51 banks; with no banks there is no RAM. -/
def ofBanks (banks : Nat) : CartridgeRam :=
  if banks = 0 then none else volatile (Bytes.zeros (banks * bankSize)) banks

/-- RAM in the save file at a path, for fewer than 2^51 banks. The file is made if there is none, and
cut or extended to the size of the banks; from 2^50 banks on that is refused, as too long for a file.
With no banks there is no RAM and no file. -/
def openSave (path : String) (banks : Nat) (d : Disk) : Except MemoryError CartridgeRam × Disk :=
  if banks = 0 then (.ok none, d)
  else
    match d.openOrCreate path with
    | .error e => (.error (.saveOpen path e), d)
    | .ok (h, d) =>
      match d.setLength h (banks * bankSize) with
      | (.ok (), d) => (.ok (persistent h path banks), d)
      | (.error e, d) => (.error (.saveResize path (banks * bankSize) e), d)

/-- The number of banks. -/
def bankCount : CartridgeRam → Nat
  | none => 0
  | volatile _ n | persistent _ _ n => n

/-- Whether the RAM lives in a save file. -/
def isPersistent : CartridgeRam → Bool
  | persistent .. => true
  | _ => false

/-- The path of the save file. -/
def savePath? : CartridgeRam → Option String
  | persistent _ p _ => some p
  | _ => Option.none

/-- The position of a byte in the array or file. -/
def position (index o : Nat) : Nat := index * bankSize + o

/-- The error for a bank that is not there. -/
def noSuchBank (ram : CartridgeRam) (index : Nat) : MemoryError :=
  .noSuchBank "ERAM" index ram.bankCount

/-- The byte at an offset of a bank that was checked. -/
def get (ram : CartridgeRam) (d : Disk) (index o : Nat) : Except Miss UInt8 :=
  match ram with
  | none => .error (.failed (ram.noSuchBank index))
  | volatile data _ =>
    match Bytes.get? data (position index o) with
    | some v => .ok v
    | Option.none => .error (.pastEnd (position index o))
  | persistent h _ _ =>
    match d.byte h (position index o) with
    | .ok v => .ok v
    | .error e => .error (.failed (.saveAccess (position index o) e))

/-- Write to a bank that was checked. -/
def put (ram : CartridgeRam) (d : Disk) (index o : Nat) (v : UInt8) : CartridgeRam × Disk :=
  match ram with
  | none => (none, d)
  | volatile data n => (volatile (Bytes.set data (position index o) v) n, d)
  | persistent h p n => (persistent h p n, d.putByte h (position index o) v)

/-- The byte at an offset of a bank. -/
def read (ram : CartridgeRam) (d : Disk) (index o : Nat) : Except Miss UInt8 :=
  if index < ram.bankCount then ram.get d index o else .error (.failed (ram.noSuchBank index))

/-- Write to a bank. -/
def write (ram : CartridgeRam) (d : Disk) (index o : Nat) (v : UInt8) :
    Except MemoryError (CartridgeRam × Disk) :=
  if index < ram.bankCount then .ok (ram.put d index o v) else .error (ram.noSuchBank index)

/-- Bring a save file up to date. Every write goes to the disk at once, so nothing is left to do. -/
def flush (_ : CartridgeRam) (d : Disk) : Except MemoryError Disk := .ok d

end CartridgeRam

end DotMatrix
