import Chip8.Machine.Basic

/-!
# Dumps of a machine

The registers, index, timers, instruction pointer and word of a machine in one line, and on demand
its stack in two more.

* `Machine.dump`: the line, with a note on the instruction.
* `Machine.fullDump`: the line with the stack behind it.
* `Machine.dump_eq_intercalate`: the line as a row of fields.
-/

namespace Chip8.Machine

/-- The line that shows a machine, with a note on its instruction. -/
def dump (m : Machine) (note : String) : String :=
  "V: 0x" ++ Hex.bytes m.v.toList.reverse ++
    " I: 0x" ++ Hex.padded 4 m.index ++
    " DT: 0x" ++ Hex.padded 2 m.delay ++
    " ST: 0x" ++ Hex.padded 2 m.sound ++
    " IP: 0x" ++ Hex.padded 3 m.ip ++
    " OP: 0x" ++ Hex.padded 4 m.opcode ++
    " IN: " ++ note

/-- The live return addresses, each behind a blank. -/
def stackText (m : Machine) : String :=
  if m.stack.live.isEmpty then " (Empty)"
  else String.join (m.stack.live.map fun a => " 0x" ++ Hex.padded 3 a.toNat)

/-- The line that shows a machine, and its stack. -/
def fullDump (m : Machine) (note : String) : String :=
  m.dump note ++ "\nSP: " ++ toString m.stack.depth ++ "\nStack:" ++ m.stackText

theorem bytes_reverse_v (m : Machine) :
    Hex.bytes m.v.toList.reverse =
      String.join ((List.finRange 16).reverse.map fun r => Hex.padded 2 (m.reg r).toNat) := by
  have hv : m.v.toList = (List.finRange 16).map m.reg := by
    refine List.ext_getElem (by simp) fun k hk _ => ?_
    simp [reg]
  rw [Hex.bytes, hv, ← List.map_reverse, List.map_map]
  simp only [Function.comp_def, Hex.byte]

/-- The line is a row of fields with blanks between them: the registers from the last to the first
with two digits each, index, timers, instruction pointer and word at their widths, and the note. -/
theorem dump_eq_intercalate (m : Machine) (note : String) :
    m.dump note = " ".intercalate
      ["V:", "0x" ++
        String.join ((List.finRange 16).reverse.map fun r => Hex.padded 2 (m.reg r).toNat),
        "I:", "0x" ++ Hex.padded 4 m.index, "DT:", "0x" ++ Hex.padded 2 m.delay,
        "ST:", "0x" ++ Hex.padded 2 m.sound, "IP:", "0x" ++ Hex.padded 3 m.ip,
        "OP:", "0x" ++ Hex.padded 4 m.opcode, "IN:", note] := by
  have hregs := bytes_reverse_v m
  -- The sixteen registers stay closed: opened they are too much for what follows.
  generalize String.join ((List.finRange 16).reverse.map fun r => Hex.padded 2 (m.reg r).toNat) =
    registers at hregs ⊢
  unfold dump
  rw [hregs]
  apply String.toList_inj.1
  simp only [String.toList_intercalate, String.toList_append, List.map_cons, List.map_nil,
    Hex.toList_padded, List.append_assoc]
  simp [List.intercalate_cons_cons]

end Chip8.Machine
