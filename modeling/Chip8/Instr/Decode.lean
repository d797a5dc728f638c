import Chip8.Instr.Kind

/-!
# Reading instruction words

A word is 16 bits wide. Its first nibble picks the format; formats 0, 8, E and F need a look at
more of the word. The low nibble of the two register comparisons is not looked at.

* `Kind.ofWord?`: the kind of a word, if it has one.
* `Instr.ofWord?`: the instruction that a word denotes.
* `Instr.nnn_eq`, `Instr.kk_eq`: how the slices of a word overlap.
-/

namespace Chip8

/-- An instruction: a kind and the slices of the word it was read from, used or not. -/
structure Instr where
  /-- What the instruction does. -/
  kind : Kind
  /-- The second nibble, a register. -/
  x : Fin 16
  /-- The third nibble, a register. -/
  y : Fin 16
  /-- The last nibble. -/
  n : Fin 16
  /-- The last byte. -/
  kk : UInt8
  /-- The last three nibbles, an address. -/
  nnn : Fin 4096
deriving DecidableEq, Repr

/-- The kind of a 16-bit word, if it matches a pattern. -/
def Kind.ofWord? (w : Nat) : Option Kind :=
  match w / 0x1000 with
  | 0x0 => if w = 0x00E0 then some .cls else if w = 0x00EE then some .ret else none
  | 0x1 => some .jump
  | 0x2 => some .call
  | 0x3 => some .skipEqByte
  | 0x4 => some .skipNeByte
  | 0x5 => some .skipEqReg
  | 0x6 => some .loadByte
  | 0x7 => some .addByte
  | 0x8 =>
    match w % 0x10 with
    | 0x0 => some .copy
    | 0x1 => some .or
    | 0x2 => some .and
    | 0x3 => some .xor
    | 0x4 => some .add
    | 0x5 => some .sub
    | 0x6 => some .shiftRight
    | 0x7 => some .subFrom
    | 0xE => some .shiftLeft
    | _ => none
  | 0x9 => some .skipNeReg
  | 0xA => some .loadIndex
  | 0xB => some .jumpOffset
  | 0xC => some .random
  | 0xD => some .draw
  | 0xE =>
    match w % 0x100 with
    | 0x9E => some .skipKeyHeld
    | 0xA1 => some .skipKeyFree
    | _ => none
  | 0xF =>
    match w % 0x100 with
    | 0x07 => some .readDelay
    | 0x0A => some .waitKey
    | 0x15 => some .setDelay
    | 0x18 => some .setSound
    | 0x1E => some .addIndex
    | 0x29 => some .loadGlyph
    | 0x33 => some .storeDecimal
    | 0x55 => some .storeRegs
    | 0x65 => some .loadRegs
    | _ => none
  | _ => none

/-- The low nibble of a number. -/
def lowNibble (n : Nat) : Fin 16 := Fin.ofNat 16 n

namespace Instr

/-- The instruction of a kind with the slices of a word. -/
def ofKind (k : Kind) (w : Nat) : Instr where
  kind := k
  x := lowNibble (w / 0x100)
  y := lowNibble (w / 0x10)
  n := lowNibble w
  kk := UInt8.ofNat w
  nnn := Fin.ofNat 4096 w

/-- The instruction that the low 16 bits of a number denote. -/
def ofWord? (opcode : Int) : Option Instr :=
  let w := (opcode % 0x10000).toNat
  (Kind.ofWord? w).map (ofKind · w)

/-- The placeholder for an instruction while the machine is idle. -/
def idle : Instr := ofKind .idle 0

/-- The slices as numbers. -/
def operands (i : Instr) : Operands where
  x := i.x.val
  y := i.y.val
  n := i.n.val
  kk := i.kk.toNat
  nnn := i.nnn.val

/-- The mnemonic. -/
def text (i : Instr) : String := i.kind.text i.operands

theorem nnn_eq (k : Kind) (w : Nat) :
    (ofKind k w).nnn.val = 0x100 * (ofKind k w).x.val + (ofKind k w).kk.toNat := by
  simp only [ofKind, lowNibble, Fin.val_ofNat, UInt8.toNat_ofNat']
  omega

theorem kk_eq (k : Kind) (w : Nat) :
    (ofKind k w).kk.toNat = 0x10 * (ofKind k w).y.val + (ofKind k w).n.val := by
  simp only [ofKind, lowNibble, Fin.val_ofNat, UInt8.toNat_ofNat']
  omega

end Instr

end Chip8
