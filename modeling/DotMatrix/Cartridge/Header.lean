import DotMatrix.Cartridge.Controller

/-!
# Cartridge headers

A header is the 80 bytes of a ROM file from 0x100 on. Offsets below are counted from there.

* `Header.checksum` is the check byte that the bytes 0x34 to 0x4C ask for.
* `Header.ofBytes` checks it, reads the sizes, and gives the fields that a loader needs. The first
  check that fails decides the error.
-/

namespace DotMatrix

/-- The bytes of a header. -/
abbrev HeaderBytes := Vector UInt8 80

/-- What is wrong with a header. -/
inductive HeaderError
  | checksum (expected computed : UInt8)
  | romSize (code : UInt8)
  | ramSize (code : UInt8)
  deriving DecidableEq, Repr

/-- The wording of a header error. -/
def HeaderError.message : HeaderError → String
  | checksum expected computed =>
    "header checksum mismatch: header says " ++ Hex.byte0x expected ++ ", computed " ++
      Hex.byte0x computed
  | romSize code => "unsupported ROM size code " ++ Hex.byte0x code
  | ramSize code => "unsupported RAM size code " ++ Hex.byte0x code

/-- What a header says. -/
structure Header where
  title : String
  controller : Controller
  /-- Banks of 0x4000 bytes, the fixed one among them. -/
  romBanks : Nat
  /-- Banks of 0x2000 bytes. -/
  ramBanks : Nat
  deriving DecidableEq, Repr

namespace Header

/-- Where a header starts in a ROM file. -/
def start : Nat := 0x100

/-- The bytes from offset `i` on, `n` of them. -/
def slice (h : HeaderBytes) (i n : Nat) : List UInt8 := (h.toList.drop i).take n

/-- The check byte: the sum of the complements of the bytes from 0x34 to 0x4C, modulo 2^8. -/
def checksum (h : HeaderBytes) : UInt8 := (slice h 0x34 25).foldl (fun sum b => sum + ~~~b) 0

/-- The number of ROM banks for a size code: twice a power of two. -/
def romBanksOf (code : UInt8) : Except HeaderError Nat :=
  if code.toNat ≤ 8 then .ok (2 <<< code.toNat) else .error (.romSize code)

/-- The number of RAM banks for a size code. -/
def ramBanksOf (code : UInt8) : Except HeaderError Nat :=
  match code.toNat with
  | 0 => .ok 0
  | 2 => .ok 1
  | 3 => .ok 4
  | 4 => .ok 16
  | 5 => .ok 8
  | _ => .error (.ramSize code)

/-- Whether a byte is a printable character, the blank among them. -/
def isPrintable (b : UInt8) : Bool := decide (0x20 ≤ b.toNat ∧ b.toNat ≤ 0x7E)

/-- The printable characters of the title field, up to its first NUL. -/
def titleOf (h : HeaderBytes) : String :=
  let field := (slice h 0x34 16).takeWhile (· ≠ 0)
  String.ofList ((field.filter isPrintable).map fun b => Char.ofNat b.toNat)

/-- What the bytes of a header say. -/
def ofBytes (h : HeaderBytes) : Except HeaderError Header := do
  if checksum h ≠ h[0x4D] then throw (.checksum h[0x4D] (checksum h))
  let romBanks ← romBanksOf h[0x48]
  let ramBanks ← ramBanksOf h[0x49]
  return ⟨titleOf h, .ofCode h[0x47], romBanks, ramBanks⟩

end Header

end DotMatrix
