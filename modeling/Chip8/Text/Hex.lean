/-!
# Hexadecimal text

Integers and bytes in lower-case hexadecimal.

* `Hex.padded`: an integer at a minimum width, filled up with zeros after its sign.
* `Hex.byte`, `Hex.bytes`: two digits a byte.
* `Hex.digits_ne_nil`: every number has a digit.
-/

namespace Chip8.Hex

/-- The digits of a natural number, most significant first and without leading zeros. -/
def digits (n : Nat) : List Char := Nat.toDigits 16 n

/-- The characters of an integer at a minimum width. A minus sign stands first and counts towards
the width; zeros fill the rest. -/
def paddedChars (width : Nat) (n : Int) : List Char :=
  let sign := if n < 0 then ['-'] else []
  let ds := digits n.natAbs
  sign ++ List.replicate (width - sign.length - ds.length) '0' ++ ds

/-- An integer at a minimum width, filled up with zeros after its sign. -/
def padded (width : Nat) (n : Int) : String := String.ofList (paddedChars width n)

/-- A byte as two digits. -/
def byte (b : UInt8) : String := padded 2 b.toNat

/-- Bytes one after the other, two digits each. -/
def bytes (bs : List UInt8) : String := String.join (bs.map byte)

theorem digits_ne_nil (n : Nat) : digits n ≠ [] := by simp [digits]

@[simp] theorem toList_padded (width : Nat) (n : Int) :
    (padded width n).toList = paddedChars width n := by simp [padded]

end Chip8.Hex
