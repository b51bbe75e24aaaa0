/-!
# Hexadecimal and binary text

Numbers in messages are written in upper-case hexadecimal, padded with zeros to a least width, or
in binary.
-/

namespace DotMatrix.Hex

/-- The digits of `n` in `base`, upper case, padded with zeros to at least `width`. -/
def digits (base width n : Nat) : String :=
  let ds := (Nat.toDigits base n).map Char.toUpper
  String.ofList (List.replicate (width - ds.length) '0' ++ ds)

/-- Two hexadecimal digits. -/
def byte (b : UInt8) : String := digits 16 2 b.toNat

/-- Four hexadecimal digits. -/
def word (w : UInt16) : String := digits 16 4 w.toNat

/-- Two hexadecimal digits after `0x`. -/
def byte0x (b : UInt8) : String := "0x" ++ byte b

/-- Four hexadecimal digits after `0x`. -/
def word0x (w : UInt16) : String := "0x" ++ word w

/-- As many hexadecimal digits as a number needs, after `0x`. -/
def nat0x (n : Nat) : String := "0x" ++ digits 16 1 n

/-- Eight binary digits after `0b`. -/
def byte0b (b : UInt8) : String := "0b" ++ digits 2 8 b.toNat

end DotMatrix.Hex
