import Chip8.Host
import Chip8.Instr.Decode
import Chip8.Machine.Basic
import Chip8.Machine.Fault

/-!
# What instructions do

By the time an instruction takes effect the instruction pointer stands on the next one, so skips
add 2 and jumps overwrite it. Every memory address is reduced to the size of memory first. A fault
leaves no effect behind.

* `Machine.decode`: reads an instruction and moves on, also past a word that is not one.
* `Instr.exec`: the effect of one instruction on the machine and its host.
-/

namespace Chip8

namespace Machine

/-- A number reduced to 16 bits. -/
def word (n : Int) : Int := n % 0x10000

/-- The address of memory that a number denotes. -/
def address (n : Int) : Int := n % memorySize

/-- Reads the word at the instruction pointer, first byte high. -/
def fetch (m : Machine) : Except Fault Machine :=
  match m.memory.read (address m.ip), m.memory.read (address (m.ip + 1)) with
  | .ok high, .ok low => .ok { m with opcode := high.toNat * 0x100 + low.toNat }
  | .error e, _ => .error (.memory e)
  | _, .error e => .error (.memory e)

/-- Reads a word as an instruction. The instruction pointer moves on before the word is looked
at. -/
def decode (m : Machine) (opcode : Int) : Except Fault Instr × Machine :=
  let moved := { m with ip := word (m.ip + 2) }
  match Instr.ofWord? opcode with
  | some i => (.ok i, moved)
  | none => (.error (.decode opcode m.ip), moved)

/-! ## Control flow -/

/-- Skips the next instruction if the condition holds. -/
def skipIf (m : Machine) (condition : Bool) : Machine :=
  if condition then { m with ip := word (m.ip + 2) } else m

/-- Goes to an address and remembers where to come back to. -/
def call (m : Machine) (target : Int) : Except Fault Machine :=
  match m.stack.push m.ip with
  | .error e => .error (.stack e)
  | .ok stack => .ok { m with stack, ip := target }

/-- Goes back to where the last open call came from. -/
def ret (m : Machine) : Except Fault Machine :=
  match m.stack.pop with
  | .error e => .error (.stack e)
  | .ok (back, stack) => .ok { m with stack, ip := back.toNat }

/-! ## Blocks of memory -/

/-- The `n` bytes from an address on, around the end of memory. -/
def bytesAt (m : Machine) (a : Int) (n : Nat) : Except Fault (List UInt8) :=
  match (List.range n).mapM fun (k : Nat) => m.memory.read (address (a + k)) with
  | .error e => .error (.memory e)
  | .ok bytes => .ok bytes

/-- Stores bytes from an address on, around the end of memory. -/
def storeBytes (m : Machine) (a : Int) : List UInt8 → Except Fault Machine
  | [] => .ok m
  | b :: bs =>
    match m.memory.store (address a) b with
    | .error e => .error (.memory e)
    | .ok memory => { m with memory }.storeBytes (a + 1) bs

/-- The values of the registers up to `r`. -/
def regsUpTo (m : Machine) (r : Fin 16) : List UInt8 := m.v.toList.take (r.val + 1)

/-- Changes the first registers to the given values. -/
def setRegs (m : Machine) (bytes : List UInt8) : Machine :=
  { m with v := Vector.ofFn fun k => bytes.getD k.val (m.reg k) }

/-- The decimal digits of a byte, hundreds first. -/
def decimalDigits (b : UInt8) : List UInt8 := [b / 100, b / 10 % 10, b % 10]

/-! ## Sprites -/

/-- The set pixels of a sprite with its corner at `(left, top)`: eight columns, the highest bit of a
row leftmost. -/
def spritePixels (left top : Int) (rows : List UInt8) : List (Int × Int) :=
  rows.zipIdx.flatMap fun (row, dy) =>
    (List.range 8).filterMap fun dx =>
      if row.toNat.testBit (7 - dx) then some (left + (dx : Int), top + (dy : Int)) else none

/-- Flips the pixels of a sprite. The flag tells whether one of them was set. -/
def draw (m : Machine) (x y : Fin 16) (n : Nat) : Except Fault Machine :=
  match m.bytesAt m.index n with
  | .error e => .error e
  | .ok rows =>
    match m.screen.xorPixels (spritePixels (m.reg x).toNat (m.reg y).toNat rows) with
    | (.error e, _) => .error (.screen e)
    | (.ok hits, screen) =>
      .ok ({ m with screen }.setReg flagRegister (if hits.contains true then 1 else 0))

/-! ## Timers and keys -/

/-- Copies the delay timer to a register, if it fits. -/
def readDelay (m : Machine) (x : Fin 16) : Except Fault Machine :=
  if 0 ≤ m.delay ∧ m.delay ≤ 255 then .ok (m.setReg x (UInt8.ofInt m.delay))
  else .error (.registerRange m.delay)

/-- Takes the lowest held key, or steps back to come here again. -/
def waitKey (m : Machine) (x : Fin 16) : Option (Fin 16) → Machine
  | none => { m with ip := word (m.ip - 2) }
  | some key => m.setReg x (UInt8.ofNat key.val)

/-- The key that a register names with its low nibble. -/
def keyIn (m : Machine) (x : Fin 16) : Fin 16 := lowNibble (m.reg x).toNat

theorem keyIn_val (m : Machine) (x : Fin 16) : (m.keyIn x).val = (m.reg x).toNat % 16 := rfl

end Machine

/-- The effect of one instruction on a machine and its host. -/
def Instr.exec (i : Instr) (m : Machine) (h : Host) : Except Fault (Machine × Host) :=
  let vx := m.reg i.x
  let vy := m.reg i.y
  match i.kind with
  | .idle => .ok (m, h)
  | .cls => .ok ({ m with screen := m.screen.clear }, h)
  | .ret => m.ret.map (·, h)
  | .jump => .ok ({ m with ip := i.nnn.val }, h)
  | .call => (m.call i.nnn.val).map (·, h)
  | .skipEqByte => .ok (m.skipIf (vx == i.kk), h)
  | .skipNeByte => .ok (m.skipIf (vx != i.kk), h)
  | .skipEqReg => .ok (m.skipIf (vx == vy), h)
  | .skipNeReg => .ok (m.skipIf (vx != vy), h)
  | .loadByte => .ok (m.setReg i.x i.kk, h)
  | .addByte => .ok (m.setReg i.x (vx + i.kk), h)
  | .copy => .ok (m.setReg i.x vy, h)
  | .or => .ok (m.setReg i.x (vx ||| vy), h)
  | .and => .ok (m.setReg i.x (vx &&& vy), h)
  | .xor => .ok (m.setReg i.x (vx ^^^ vy), h)
  | .add => .ok (m.setFlagged i.x (vx + vy) (255 < vx.toNat + vy.toNat), h)
  | .sub => .ok (m.setFlagged i.x (vx - vy) (vy ≤ vx), h)
  | .shiftRight => .ok (m.setFlagged i.x (vx >>> 1) (vx % 2 == 1), h)
  | .subFrom => .ok (m.setFlagged i.x (vy - vx) (vx ≤ vy), h)
  | .shiftLeft => .ok (m.setFlagged i.x (vx <<< 1) (128 ≤ vx), h)
  | .loadIndex => .ok ({ m with index := i.nnn.val }, h)
  | .jumpOffset => .ok ({ m with ip := Machine.word ((m.reg ⟨0, by decide⟩).toNat + i.nnn.val) }, h)
  | .random =>
    let (value, random) := h.random.next
    .ok (m.setReg i.x (UInt8.ofInt value &&& i.kk), { h with random })
  | .draw =>
    (m.draw i.x i.y i.n.val).map (·, { h with presenter := h.presenter.requestRedraw })
  | .skipKeyHeld => .ok (m.skipIf (h.keypad.isHeld (m.keyIn i.x)), h)
  | .skipKeyFree => .ok (m.skipIf (!h.keypad.isHeld (m.keyIn i.x)), h)
  | .readDelay => (m.readDelay i.x).map (·, h)
  | .waitKey => .ok (m.waitKey i.x h.keypad.firstHeld?, h)
  | .setDelay => .ok ({ m with delay := vx.toNat }, h)
  | .setSound => .ok ({ m with sound := vx.toNat }, h)
  | .addIndex => .ok ({ m with index := Machine.word (m.index + vx.toNat) }, h)
  | .loadGlyph => .ok ({ m with index := glyphBase + glyphHeight * (vx.toNat % 16) }, h)
  | .storeDecimal => (m.storeBytes m.index (Machine.decimalDigits vx)).map (·, h)
  | .storeRegs => (m.storeBytes m.index (m.regsUpTo i.x)).map (·, h)
  | .loadRegs => (m.bytesAt m.index (i.x.val + 1)).map (m.setRegs ·, h)

end Chip8
