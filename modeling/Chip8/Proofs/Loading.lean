import Chip8.Proofs.Cycle
import Chip8.Proofs.Memory

/-!
# Loading programs

A program is taken as a whole or refused before anything changes, and the machine that it starts in
is told by the program alone.

* `Machine.fresh`: the machine in which a program starts, written out.
* `Machine.loaded_eq`: a program that is short enough is loaded into it.
* `Emulator.load_ok`, `Emulator.load_refused`: what loading comes to.
-/

namespace Chip8

namespace Machine

/-- Memory, byte by byte, when a program starts: the glyphs at the bottom, the program behind the
first 512 addresses, and zeros elsewhere. -/
def image (program : List UInt8) : List UInt8 :=
  glyphs ++ List.replicate 432 0 ++ program ++ List.replicate (3584 - program.length) 0

/-- The machine in which a program starts. -/
def fresh (program : List UInt8) : Machine where
  memory := ⟨(image program).toArray⟩
  v := Vector.replicate 16 0
  index := 0
  ip := 0x200
  stack := CallStack.empty 16
  delay := 0
  sound := 0
  screen := Screen.standard
  opcode := 0

theorem size_booted : booted.memory.size = memorySize := by
  rw [booted, Memory.size_putBlock, blank, Memory.size_zeros]

theorem toList_booted :
    booted.memory.cells.toList = glyphs ++ List.replicate (memorySize - glyphs.length) 0 := by
  have hsize : blank.memory.size = memorySize := Memory.size_zeros memorySize
  have hzeros : blank.memory.cells.toList = List.replicate memorySize 0 := Array.toList_replicate
  have hfits : glyphBase + glyphs.length ≤ blank.memory.size := by
    rw [hsize]
    decide
  rw [booted, Memory.toList_putBlock hfits, hzeros, List.take_replicate, List.drop_replicate]
  rfl

/-- Where a program is stored in a booted machine, zeros lie before and behind it. -/
theorem toList_putBlock_booted {program : List UInt8} (h : program.length ≤ 3584) :
    (booted.memory.putBlock programBase program).cells.toList = image program := by
  have hfits : programBase + program.length ≤ booted.memory.size := by
    rw [size_booted, programBase, memorySize]
    omega
  have hglyphs : glyphs.length = 80 := rfl
  have hbefore : (glyphs ++ List.replicate (memorySize - glyphs.length) 0).take programBase =
      glyphs ++ List.replicate 432 0 := by
    rw [List.take_append, List.take_of_length_le (by decide), List.take_replicate]
    rfl
  have hbehind : (glyphs ++ List.replicate (memorySize - glyphs.length) 0).drop
      (programBase + program.length) = List.replicate (3584 - program.length) 0 := by
    rw [List.drop_append, List.drop_of_length_le (by rw [hglyphs, programBase]; omega),
      List.nil_append, List.drop_replicate, hglyphs, programBase, memorySize]
    congr 1
    omega
  rw [Memory.toList_putBlock hfits, toList_booted, hbefore, hbehind, image]

/-- A program that is short enough is loaded into a machine that is told by it alone. -/
theorem loaded_eq {program : List UInt8} (h : program.length ≤ 3584) :
    loaded program = .ok (fresh program) := by
  have hfits : booted.memory.Fits programBase program.length := by
    rw [Memory.Fits, size_booted, programBase, memorySize]
    omega
  have hmemory : booted.memory.putBlock programBase program = ⟨(image program).toArray⟩ := by
    rw [← toList_putBlock_booted h]
  rw [loaded, Memory.writeBlock_of_fits (by decide) hfits, hmemory]
  rfl

theorem wellFormed_fresh {program : List UInt8} (h : program.length ≤ 3584) :
    (fresh program).WellFormed := wellFormed_loaded (loaded_eq h)

end Machine

/-! ## Loading -/

namespace Emulator

variable {e : Emulator}

theorem fits_iff (hm : e.machine.WellFormed) (program : List UInt8) :
    e.machine.memory.Fits programBase program.length ↔ program.length ≤ 3584 := by
  rw [Memory.Fits, hm.memory_size, programBase, memorySize]
  omega

/-- The emulator with a program that is short enough in place of its machine. -/
def started (e : Emulator) (program : List UInt8) : Emulator :=
  (e.replace (.fresh program)).report .info .emulator
    ("Loaded " ++ toString program.length ++ " byte ROM at 0x" ++ Hex.padded 3 programBase)

theorem load_ok (hm : e.machine.WellFormed) {program : List UInt8}
    (h : program.length ≤ 3584) : e.load program = (.ok (), e.started program) := by
  rw [load, if_pos ((fits_iff hm program).2 h), Machine.loaded_eq h]
  rfl

theorem load_refused (hm : e.machine.WellFormed) {program : List UInt8}
    (h : 3584 < program.length) :
    e.load program = (.error (.tooLong program.length), e) := by
  rw [load, if_neg]
  rw [fits_iff hm]
  omega

end Emulator

end Chip8
