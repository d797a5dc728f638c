import Chip8.CallStack
import Chip8.Screen

/-!
# Machines

Everything that an instruction can change: memory, registers, index, instruction pointer, call
stack, timers, screen, and the word fetched last.

* `Machine.blank`, `Machine.booted`, `Machine.loaded`: the states in which programs start.
* `Machine.WellFormed`: what holds of every state that a program can reach.
* `Machine.tick`: one step of the timers.
-/

namespace Chip8

/-- The number of addresses of the machine's memory. -/
def memorySize : Nat := 4096

/-- The address of the first glyph. -/
def glyphBase : Nat := 0x000

/-- The address at which programs start. -/
def programBase : Nat := 0x200

/-- The number of addresses that a return stack of the machine can hold. -/
def stackSize : Nat := 16

/-- The number of rows of a glyph. -/
def glyphHeight : Nat := 5

/-- The register that holds carries, borrows and collisions. -/
def flagRegister : Fin 16 := Fin.last 15

/-- The sprites of the hexadecimal digits, `glyphHeight` rows each, four pixels wide. -/
def glyphs : List UInt8 :=
  [0xF0, 0x90, 0x90, 0x90, 0xF0,
    0x20, 0x60, 0x20, 0x20, 0x70,
    0xF0, 0x10, 0xF0, 0x80, 0xF0,
    0xF0, 0x10, 0xF0, 0x10, 0xF0,
    0x90, 0x90, 0xF0, 0x10, 0x10,
    0xF0, 0x80, 0xF0, 0x10, 0xF0,
    0xF0, 0x80, 0xF0, 0x90, 0xF0,
    0xF0, 0x10, 0x20, 0x40, 0x40,
    0xF0, 0x90, 0xF0, 0x90, 0xF0,
    0xF0, 0x90, 0xF0, 0x10, 0xF0,
    0xF0, 0x90, 0xF0, 0x90, 0x90,
    0xE0, 0x90, 0xE0, 0x90, 0xE0,
    0xF0, 0x80, 0x80, 0x80, 0xF0,
    0xE0, 0x90, 0x90, 0x90, 0xE0,
    0xF0, 0x80, 0xF0, 0x80, 0xF0,
    0xF0, 0x80, 0xF0, 0x80, 0x80]

/-- The state of a machine. -/
structure Machine where
  /-- The memory. -/
  memory : Memory
  /-- The registers. -/
  v : Vector UInt8 16
  /-- The index register. -/
  index : Int
  /-- The address of the next instruction. -/
  ip : Int
  /-- The return addresses. -/
  stack : CallStack
  /-- The delay timer. -/
  delay : Int
  /-- The sound timer. -/
  sound : Int
  /-- The screen. -/
  screen : Screen
  /-- The word fetched last. -/
  opcode : Int
deriving DecidableEq

namespace Machine

/-- The machine in which everything is zero but the instruction pointer. -/
def blank : Machine where
  memory := Memory.zeros memorySize
  v := Vector.replicate 16 0
  index := 0
  ip := programBase
  stack := CallStack.empty stackSize
  delay := 0
  sound := 0
  screen := Screen.standard
  opcode := 0

/-- The blank machine with the glyphs in its memory. -/
def booted : Machine := { blank with memory := blank.memory.putBlock glyphBase glyphs }

/-- The booted machine with a program in its memory. -/
def loaded (program : List UInt8) : Except Memory.Error Machine :=
  (booted.memory.writeBlock programBase program).map fun memory => { booted with memory }

/-- The most bytes that a program can have. -/
def programCapacity : Nat := memorySize - programBase

/-- What every state of a program satisfies: registers, stack slots and memory cells are as wide as
their types, the other registers and the timers keep to their widths, and every pixel is clear or
set. -/
structure WellFormed (m : Machine) : Prop where
  /-- Memory has its full size. -/
  memory_size : m.memory.size = memorySize
  /-- The index is a 16-bit number. -/
  index_bounds : 0 ≤ m.index ∧ m.index < 0x10000
  /-- The instruction pointer is a 16-bit number. -/
  ip_bounds : 0 ≤ m.ip ∧ m.ip < 0x10000
  /-- The word fetched last is a 16-bit number. -/
  opcode_bounds : 0 ≤ m.opcode ∧ m.opcode < 0x10000
  /-- The delay timer is a byte. -/
  delay_bounds : 0 ≤ m.delay ∧ m.delay < 0x100
  /-- The sound timer is a byte. -/
  sound_bounds : 0 ≤ m.sound ∧ m.sound < 0x100
  /-- The stack has its full capacity. -/
  stack_capacity : m.stack.capacity = stackSize
  /-- The screen has the standard width. -/
  screen_width : m.screen.width = Screen.standardWidth
  /-- The screen has the standard height. -/
  screen_height : m.screen.height = Screen.standardHeight
  /-- Every pixel is clear or set. -/
  screen_bits : ∀ a, m.screen.cells.get a = 0 ∨ m.screen.cells.get a = 1

/-! ## Timers -/

/-- One step of a timer, which stops at zero. -/
def countDown (timer : Int) : Int := if 0 < timer then timer - 1 else timer

/-- One step of both timers. -/
def tick (m : Machine) : Machine :=
  { m with delay := countDown m.delay, sound := countDown m.sound }

/-! ## Registers -/

/-- The value of a register. -/
def reg (m : Machine) (r : Fin 16) : UInt8 := m.v[r]

/-- Changes a register. -/
def setReg (m : Machine) (r : Fin 16) (b : UInt8) : Machine :=
  { m with v := m.v.set r.val b r.isLt }

/-- Changes a register, then the flag register; the flag wins where both are the same. -/
def setFlagged (m : Machine) (r : Fin 16) (b : UInt8) (flag : Bool) : Machine :=
  (m.setReg r b).setReg flagRegister (if flag then 1 else 0)

theorem reg_setReg (m : Machine) (r s : Fin 16) (b : UInt8) :
    (m.setReg r b).reg s = if r = s then b else m.reg s := by
  simp only [reg, setReg, Fin.getElem_fin, Vector.getElem_set, Fin.ext_iff]

theorem reg_setFlagged (m : Machine) (r s : Fin 16) (b : UInt8) (flag : Bool) :
    (m.setFlagged r b flag).reg s =
      if flagRegister = s then (if flag then 1 else 0) else if r = s then b else m.reg s := by
  rw [setFlagged, reg_setReg, reg_setReg]

end Machine

end Chip8
