import Chip8.CallStack
import Chip8.Screen

/-!
# Machine faults

The causes for which a machine stops, and their texts.
-/

namespace Chip8

/-- Why a machine cannot go on. -/
inductive Fault where
  /-- The word at an address is not an instruction. -/
  | decode (opcode address : Int)
  /-- The stack refuses. -/
  | stack (error : CallStack.Error)
  /-- The memory refuses. -/
  | memory (error : Memory.Error)
  /-- The screen refuses. -/
  | screen (error : Screen.Error)
  /-- A value does not fit in a register. -/
  | registerRange (value : Int)
deriving DecidableEq, Repr

/-- The text of a fault. -/
def Fault.message : Fault → String
  | .decode opcode address =>
    "Opcode 0x" ++ Hex.padded 4 opcode ++ " at address 0x" ++ Hex.padded 3 address ++
      " is not a valid instruction."
  | .stack error => error.message
  | .memory error => error.message
  | .screen error => error.message
  | .registerRange value => s!"{value} does not fit in a register"

end Chip8
