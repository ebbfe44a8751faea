/-!
# Hexadecimal text

Numbers are shown in base sixteen with lower-case digits, padded on the left with zeros up to a
width that the place of use fixes.

* `hex`: as many digits as the number needs;
* `paddedHex`: at least a given number of digits.
-/

namespace InteropTables

/-- The digits of `n` in base sixteen, without leading zeros (`0` itself has one digit). -/
def hex (n : Nat) : String :=
  String.ofList (Nat.toDigits 16 n)

/-- The digits of `n` in base sixteen, with zeros in front up to `width` digits. -/
def paddedHex (width n : Nat) : String :=
  String.ofList ((Nat.toDigits 16 n).leftpad width '0')

/-- One byte as two digits, as bytes are shown in a row. -/
def hexOfByte (b : UInt8) : String :=
  paddedHex 2 b.toNat

end InteropTables
