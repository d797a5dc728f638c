import Chip8.Text.Hex

/-!
# Kinds of instruction

An instruction word is one of 34 patterns; the idle placeholder, which no word denotes, is the
35th kind. Each kind has a pattern, such as `8xy4`, and a template for its mnemonic.

* `Kind.pattern`: the pattern as text, and `Kind.ofPattern?` back.
* `Kind.template`, `Kind.text`: the mnemonic, with operands in hexadecimal.
-/

namespace Chip8

/-- What an instruction does. -/
inductive Kind where
  /-- Nothing: stands in for an instruction while the machine is idle. -/
  | idle
  /-- Clears the screen. -/
  | cls
  /-- Returns from a call. -/
  | ret
  /-- Jumps to an address. -/
  | jump
  /-- Calls an address. -/
  | call
  /-- Skips if a register equals a byte. -/
  | skipEqByte
  /-- Skips unless a register equals a byte. -/
  | skipNeByte
  /-- Skips if two registers are equal. -/
  | skipEqReg
  /-- Loads a byte. -/
  | loadByte
  /-- Adds a byte, without carry. -/
  | addByte
  /-- Copies a register. -/
  | copy
  /-- Bitwise or. -/
  | or
  /-- Bitwise and. -/
  | and
  /-- Bitwise exclusive or. -/
  | xor
  /-- Adds a register, with carry. -/
  | add
  /-- Subtracts a register. -/
  | sub
  /-- Shifts right by one. -/
  | shiftRight
  /-- Subtracts from a register. -/
  | subFrom
  /-- Shifts left by one. -/
  | shiftLeft
  /-- Skips unless two registers are equal. -/
  | skipNeReg
  /-- Loads the index. -/
  | loadIndex
  /-- Jumps to an address plus the first register. -/
  | jumpOffset
  /-- Loads a masked random byte. -/
  | random
  /-- Draws a sprite. -/
  | draw
  /-- Skips if a key is held. -/
  | skipKeyHeld
  /-- Skips unless a key is held. -/
  | skipKeyFree
  /-- Reads the delay timer. -/
  | readDelay
  /-- Waits for a key. -/
  | waitKey
  /-- Sets the delay timer. -/
  | setDelay
  /-- Sets the sound timer. -/
  | setSound
  /-- Adds to the index. -/
  | addIndex
  /-- Points the index at a digit's glyph. -/
  | loadGlyph
  /-- Stores three decimal digits. -/
  | storeDecimal
  /-- Stores registers. -/
  | storeRegs
  /-- Loads registers. -/
  | loadRegs
deriving DecidableEq, Repr

/-- A slice of an instruction word that an instruction can use. -/
inductive Operand where
  /-- The register number in the second nibble. -/
  | x
  /-- The register number in the third nibble. -/
  | y
  /-- The last nibble. -/
  | n
  /-- The last byte. -/
  | kk
  /-- The last three nibbles. -/
  | nnn
deriving DecidableEq, Repr

/-- A value for each slice. -/
structure Operands where
  /-- The value of the slice `x`. -/
  x : Int := 0
  /-- The value of the slice `y`. -/
  y : Int := 0
  /-- The value of the slice `n`. -/
  n : Int := 0
  /-- The value of the slice `kk`. -/
  kk : Int := 0
  /-- The value of the slice `nnn`. -/
  nnn : Int := 0
deriving DecidableEq, Repr

/-- The value of one slice. -/
def Operands.get (o : Operands) : Operand → Int
  | .x => o.x
  | .y => o.y
  | .n => o.n
  | .kk => o.kk
  | .nnn => o.nnn

/-- The width of a slice in hexadecimal digits. -/
def Operand.width : Operand → Nat
  | .x | .y | .n => 1
  | .kk => 2
  | .nnn => 3

/-- A part of a mnemonic. -/
inductive Piece where
  /-- Fixed text. -/
  | text (s : String)
  /-- The value of a slice, at the width of the slice. -/
  | operand (o : Operand)
deriving DecidableEq, Repr

/-- The text of a part. -/
def Piece.render (o : Operands) : Piece → String
  | .text s => s
  | .operand slice => Hex.padded slice.width (o.get slice)

namespace Kind

/-- Every kind, the idle placeholder first and the others in the order of their patterns. -/
def all : List Kind :=
  [.idle, .cls, .ret, .jump, .call, .skipEqByte, .skipNeByte, .skipEqReg, .loadByte, .addByte,
    .copy, .or, .and, .xor, .add, .sub, .shiftRight, .subFrom, .shiftLeft, .skipNeReg, .loadIndex,
    .jumpOffset, .random, .draw, .skipKeyHeld, .skipKeyFree, .readDelay, .waitKey, .setDelay,
    .setSound, .addIndex, .loadGlyph, .storeDecimal, .storeRegs, .loadRegs]

/-- The pattern of a kind's words: digits stand for themselves, letters for slices. -/
def pattern : Kind → String
  | .idle => "IDLE"
  | .cls => "00E0"
  | .ret => "00EE"
  | .jump => "1nnn"
  | .call => "2nnn"
  | .skipEqByte => "3xkk"
  | .skipNeByte => "4xkk"
  | .skipEqReg => "5xy0"
  | .loadByte => "6xkk"
  | .addByte => "7xkk"
  | .copy => "8xy0"
  | .or => "8xy1"
  | .and => "8xy2"
  | .xor => "8xy3"
  | .add => "8xy4"
  | .sub => "8xy5"
  | .shiftRight => "8xy6"
  | .subFrom => "8xy7"
  | .shiftLeft => "8xyE"
  | .skipNeReg => "9xy0"
  | .loadIndex => "Annn"
  | .jumpOffset => "Bnnn"
  | .random => "Cxkk"
  | .draw => "Dxyn"
  | .skipKeyHeld => "Ex9E"
  | .skipKeyFree => "ExA1"
  | .readDelay => "Fx07"
  | .waitKey => "Fx0A"
  | .setDelay => "Fx15"
  | .setSound => "Fx18"
  | .addIndex => "Fx1E"
  | .loadGlyph => "Fx29"
  | .storeDecimal => "Fx33"
  | .storeRegs => "Fx55"
  | .loadRegs => "Fx65"

/-- The kind with a given pattern. -/
def ofPattern? (s : String) : Option Kind := all.find? fun k => k.pattern = s

/-- The mnemonic of a kind, with places for its operands. -/
def template : Kind → List Piece
  | .idle => [.text "IDLE"]
  | .cls => [.text "CLS"]
  | .ret => [.text "RET"]
  | .jump => [.text "JP 0x", .operand .nnn]
  | .call => [.text "CALL 0x", .operand .nnn]
  | .skipEqByte => [.text "SE V", .operand .x, .text ", 0x", .operand .kk]
  | .skipNeByte => [.text "SNE V", .operand .x, .text ", 0x", .operand .kk]
  | .skipEqReg => [.text "SE V", .operand .x, .text ", V", .operand .y]
  | .loadByte => [.text "LD V", .operand .x, .text ", 0x", .operand .kk]
  | .addByte => [.text "ADD V", .operand .x, .text ", 0x", .operand .kk]
  | .copy => [.text "LD V", .operand .x, .text ", V", .operand .y]
  | .or => [.text "OR V", .operand .x, .text ", V", .operand .y]
  | .and => [.text "AND V", .operand .x, .text ", V", .operand .y]
  | .xor => [.text "XOR V", .operand .x, .text ", V", .operand .y]
  | .add => [.text "ADD V", .operand .x, .text ", V", .operand .y]
  | .sub => [.text "SUB V", .operand .x, .text ", V", .operand .y]
  | .shiftRight => [.text "SHR V", .operand .x]
  | .subFrom => [.text "SUBN V", .operand .x, .text ", V", .operand .y]
  | .shiftLeft => [.text "SHL V", .operand .x]
  | .skipNeReg => [.text "SNE V", .operand .x, .text ", V", .operand .y]
  | .loadIndex => [.text "LD I, 0x", .operand .nnn]
  | .jumpOffset => [.text "JP V0, 0x", .operand .nnn]
  | .random => [.text "RND V", .operand .x, .text ", 0x", .operand .kk]
  | .draw => [.text "DRW V", .operand .x, .text ", V", .operand .y, .text ", 0x", .operand .n]
  | .skipKeyHeld => [.text "SKP V", .operand .x]
  | .skipKeyFree => [.text "SKNP V", .operand .x]
  | .readDelay => [.text "LD V", .operand .x, .text ", DT"]
  | .waitKey => [.text "LD V", .operand .x, .text ", K"]
  | .setDelay => [.text "LD DT, V", .operand .x]
  | .setSound => [.text "LD ST, V", .operand .x]
  | .addIndex => [.text "ADD I, V", .operand .x]
  | .loadGlyph => [.text "LD F, V", .operand .x]
  | .storeDecimal => [.text "LD B, V", .operand .x]
  | .storeRegs => [.text "LD [I], V", .operand .x]
  | .loadRegs => [.text "LD V", .operand .x, .text ", [I]"]

/-- The mnemonic of an instruction with the given operands. -/
def text (k : Kind) (o : Operands) : String := String.join (k.template.map (·.render o))

/-- The pattern and the mnemonic of an instruction, for people who look at single instructions. -/
def describe (k : Kind) (o : Operands) : String :=
  "<Instruction " ++ k.pattern ++ " '" ++ k.text o ++ "'>"

theorem mem_all (k : Kind) : k ∈ all := by cases k <;> decide

end Kind

end Chip8
