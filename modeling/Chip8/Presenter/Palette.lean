import Chip8.Screen
import Chip8.Text.Fields
import Chip8.Text.Numeral

/-!
# Palettes

A palette gives clear pixels a background colour and set pixels a foreground colour. It is written
as two hexadecimal numbers of six characters with a comma between them.

* `Palette.parse`: reads a palette and names the first thing wrong with it.
* `Palette.paint?`: the screen as rows of colour bytes.
-/

namespace Chip8

/-- A colour, a byte for each of red, green and blue. -/
structure Colour where
  /-- The share of red. -/
  red : UInt8
  /-- The share of green. -/
  green : UInt8
  /-- The share of blue. -/
  blue : UInt8
deriving DecidableEq, Repr

/-- The bytes of a colour, red first. -/
def Colour.bytes (c : Colour) : List UInt8 := [c.red, c.green, c.blue]

/-- The colour whose bytes, red first, are the low 24 bits of a number. -/
def Colour.ofNat (n : Nat) : Colour where
  red := UInt8.ofNat (n / 0x10000)
  green := UInt8.ofNat (n / 0x100)
  blue := UInt8.ofNat n

/-- The colours of clear and set pixels. -/
structure Palette where
  /-- The colour of clear pixels. -/
  background : Colour
  /-- The colour of set pixels. -/
  foreground : Colour
deriving DecidableEq, Repr

namespace Palette

/-- What is wrong with a written palette, or with a screen to be painted. -/
inductive Error where
  /-- There are not two colours. -/
  | wrongCount
  /-- A colour is not six characters long. -/
  | wrongLength
  /-- A colour is not a hexadecimal number. -/
  | notHex
  /-- A colour is a number below zero. -/
  | negative
deriving DecidableEq, Repr

/-- The text of an error. -/
def Error.message : Error → String
  | .wrongCount => "Exactly two palette colours are needed: background and foreground."
  | .wrongLength => "Palette colours must all be 6 hex digits long."
  | .notHex => "Invalid palette colour defined."
  | .negative => "A colour cannot be below zero"

/-- Reads one colour. -/
def parseColour (s : String) : Except Error Colour :=
  if s.length ≠ 6 then .error .wrongLength
  else
    match Numeral.hex? s with
    | none => .error .notHex
    | some rgb => if rgb < 0 then .error .negative else .ok (Colour.ofNat rgb.toNat)

/-- Reads a palette. The background is read to its end before the foreground. -/
def parse (s : String) : Except Error Palette :=
  match Fields.split ',' s with
  | [background, foreground] => do
    return { background := ← parseColour background, foreground := ← parseColour foreground }
  | _ => .error .wrongCount

/-- The written form of the palette in use when none is given. -/
def standardText : String := "222222,DDDDDD"

/-- The colour of a cell, which must hold 0 or 1. -/
def colourOf? (p : Palette) (cell : UInt8) : Option Colour :=
  if cell = 0 then some p.background else if cell = 1 then some p.foreground else none

/-- The colour bytes of a screen, row by row, or nothing if a cell is neither 0 nor 1. -/
def paint? (p : Palette) (screen : Screen) : Option (List UInt8) :=
  (screen.cells.cells.toList.mapM p.colourOf?).map fun colours => colours.flatMap Colour.bytes

end Palette

end Chip8
