import Chip8.Proofs.Access
import Chip8.Proofs.CallStack

/-!
# Effects of well-formed machines

On a well-formed machine an instruction goes through unless the stack refuses it, and then leaves a
well-formed machine. What it does to its host depends on its kind only.

* `Instr.touch`: what an instruction that goes through does to its host.
* `Instr.exec_ok`: every instruction goes through unless it is a call on a full stack or a return
  on an empty one, and keeps the machine well-formed.
* `Instr.exec_call_full`, `Instr.exec_ret_empty`: the two others fail.
* `Instr.Executed`, `Instr.exec_executed`: the three outcomes together.
* `Machine.WellFormed.tick`, `Machine.wellFormed_booted`, `Machine.wellFormed_loaded`: the other
  ways to a machine.
-/

namespace Chip8

/-- What an instruction that goes through does to its host. -/
def Instr.touch (i : Instr) (h : Host) : Host :=
  match i.kind with
  | .random => { h with random := h.random.next.2 }
  | .draw => { h with presenter := h.presenter.requestRedraw }
  | _ => h

/-! ## Pixels stay clear or set -/

namespace Screen

/-- Every pixel is clear or set. -/
def Binary (s : Screen) : Prop := ∀ a, s.cells.get a = 0 ∨ s.cells.get a = 1

theorem Binary.flip {s : Screen} (h : s.Binary) (x y : Int) : (s.flip x y).Binary := by
  intro a
  rw [show (s.flip x y).cells = s.cells.put (s.wrapped x y) (s.cell x y ^^^ 1) from rfl,
    Memory.get_put]
  split
  · rcases h (s.wrapped x y) with h0 | h1
    · right
      rw [cell, h0]
      rfl
    · left
      rw [cell, h1]
      rfl
  · exact h a

theorem Binary.flips {s : Screen} (h : s.Binary) (ps : List (Int × Int)) : (s.flips ps).Binary := by
  induction ps generalizing s with
  | nil => exact h
  | cons p ps ih => exact ih (h.flip p.1 p.2)

theorem binary_clear (s : Screen) : s.clear.Binary := by
  intro a
  left
  exact Memory.get_zeros _ a

end Screen

namespace Machine

/-! ## Shape of a well-formed machine -/

namespace WellFormed

variable {m : Machine}

theorem screen_size (h : m.WellFormed) : m.screen.width = 64 ∧ m.screen.height = 32 :=
  ⟨h.screen_width, h.screen_height⟩

theorem hasPixels (h : m.WellFormed) : m.screen.HasPixels := by
  obtain ⟨hw, hh⟩ := h.screen_size
  constructor <;> omega

theorem size_slots (h : m.WellFormed) : m.stack.slots.size = stackSize := by
  rw [m.stack.size_slots, h.stack_capacity]
  rfl

theorem depth_le (h : m.WellFormed) : m.stack.depth ≤ stackSize := by
  rw [← h.size_slots]
  exact m.stack.depth_le

theorem size_cells (h : m.WellFormed) :
    m.screen.cells.size = Screen.standardWidth * Screen.standardHeight := by
  have := m.screen.size_cells
  rw [h.screen_width, h.screen_height] at this
  exact_mod_cast this

/-! ## Changes that keep a machine well-formed -/

theorem setV (h : m.WellFormed) (v : Vector UInt8 16) : ({ m with v } : Machine).WellFormed :=
  { h with }

theorem setReg (h : m.WellFormed) (r : Fin 16) (b : UInt8) : (m.setReg r b).WellFormed := h.setV _

theorem setFlagged (h : m.WellFormed) (r : Fin 16) (b : UInt8) (flag : Bool) :
    (m.setFlagged r b flag).WellFormed := (h.setReg r b).setReg _ _

theorem setRegs (h : m.WellFormed) (bs : List UInt8) : (m.setRegs bs).WellFormed := h.setV _

theorem setIp (h : m.WellFormed) {ip : Int} (hip : 0 ≤ ip ∧ ip < 0x10000) :
    ({ m with ip } : Machine).WellFormed := { h with ip_bounds := hip }

theorem setIndex (h : m.WellFormed) {index : Int} (hi : 0 ≤ index ∧ index < 0x10000) :
    ({ m with index } : Machine).WellFormed := { h with index_bounds := hi }

theorem setOpcode (h : m.WellFormed) {opcode : Int} (ho : 0 ≤ opcode ∧ opcode < 0x10000) :
    ({ m with opcode } : Machine).WellFormed := { h with opcode_bounds := ho }

theorem setDelay (h : m.WellFormed) {delay : Int} (hd : 0 ≤ delay ∧ delay < 0x100) :
    ({ m with delay } : Machine).WellFormed := { h with delay_bounds := hd }

theorem setSound (h : m.WellFormed) {sound : Int} (hs : 0 ≤ sound ∧ sound < 0x100) :
    ({ m with sound } : Machine).WellFormed := { h with sound_bounds := hs }

theorem setMemory (h : m.WellFormed) {memory : Memory} (hs : memory.size = memorySize) :
    ({ m with memory } : Machine).WellFormed := { h with memory_size := hs }

theorem stored (h : m.WellFormed) (a : Int) (bs : List UInt8) : (m.stored a bs).WellFormed :=
  h.setMemory ((size_putBytes ..).trans h.memory_size)

theorem setStack (h : m.WellFormed) {stack : CallStack} (hc : stack.capacity = m.stack.capacity) :
    ({ m with stack } : Machine).WellFormed :=
  { h with stack_capacity := hc.trans h.stack_capacity }

theorem setScreen (h : m.WellFormed) {screen : Screen} (hw : screen.width = m.screen.width)
    (hh : screen.height = m.screen.height) (hb : screen.Binary) :
    ({ m with screen } : Machine).WellFormed :=
  { h with
    screen_width := hw.trans h.screen_width
    screen_height := hh.trans h.screen_height
    screen_bits := hb }

theorem skipIf (h : m.WellFormed) (condition : Bool) : (m.skipIf condition).WellFormed := by
  unfold Machine.skipIf
  split
  · exact h.setIp (word_bounds _)
  · exact h

theorem drawn (h : m.WellFormed) (x y : Fin 16) (n : Nat) : (m.drawn x y n).WellFormed := by
  have hb : (m.screen.flips (m.sprite x y n)).Binary := Screen.Binary.flips h.screen_bits _
  exact (h.setScreen (Screen.width_flips ..) (Screen.height_flips ..) hb).setReg _ _

theorem waitKey (h : m.WellFormed) (x : Fin 16) (key : Option (Fin 16)) :
    (m.waitKey x key).WellFormed := by
  cases key with
  | none => exact h.setIp (word_bounds _)
  | some key => exact h.setReg x _

theorem countDown_bounds {t : Int} (h : 0 ≤ t ∧ t < 0x100) :
    0 ≤ countDown t ∧ countDown t < 0x100 := by
  unfold countDown
  split <;> omega

theorem tick (h : m.WellFormed) : m.tick.WellFormed :=
  (h.setDelay (countDown_bounds h.delay_bounds)).setSound (countDown_bounds h.sound_bounds)

end WellFormed

/-! ## Machines in which programs start -/

theorem wellFormed_blank : blank.WellFormed where
  memory_size := Memory.size_zeros _
  index_bounds := by decide
  ip_bounds := by decide
  opcode_bounds := by decide
  delay_bounds := by decide
  sound_bounds := by decide
  stack_capacity := rfl
  screen_width := rfl
  screen_height := rfl
  screen_bits a := .inl (Memory.get_zeros _ a)

theorem wellFormed_booted : booted.WellFormed :=
  wellFormed_blank.setMemory ((Memory.size_putBlock _ _ _).trans wellFormed_blank.memory_size)

theorem wellFormed_loaded {program : List UInt8} {m : Machine} (h : loaded program = .ok m) :
    m.WellFormed := by
  rw [loaded, Memory.writeBlock] at h
  simp only [] at h
  split at h
  · cases h
  · split at h
    · cases h
      exact wellFormed_booted.setMemory
        ((Memory.size_putBlock _ _ _).trans wellFormed_booted.memory_size)
    · cases h

end Machine

/-! ## Instructions -/

namespace Instr

variable {i : Instr} {m : Machine}

theorem exec_call_full (hm : m.WellFormed) (hk : i.kind = .call)
    (hd : m.stack.depth = stackSize) (h : Host) : i.exec m h = .error (.stack .overflow) := by
  have hcap := hm.stack_capacity
  have hfull : m.stack.capacity ≤ m.stack.depth := by omega
  simp only [exec, hk, Machine.call, CallStack.push_of_full hfull]
  rfl

theorem exec_ret_empty (hk : i.kind = .ret) (hd : m.stack.depth = 0) (h : Host) :
    i.exec m h = .error (.stack .underflow) := by
  simp only [exec, hk, Machine.ret, CallStack.pop_of_empty hd]
  rfl

/-- **Preservation.** An instruction goes through unless it is a call on a full stack or a return on
an empty one, and leaves a well-formed machine. -/
theorem exec_ok (hm : m.WellFormed) (hcall : i.kind = .call → m.stack.depth < stackSize)
    (hret : i.kind = .ret → 0 < m.stack.depth) (h : Host) :
    ∃ m', i.exec m h = .ok (m', i.touch h) ∧ m'.WellFormed := by
  have hmem := hm.memory_size
  have hbyte : ∀ b : UInt8, 0 ≤ (b.toNat : Int) ∧ (b.toNat : Int) < 0x100 := fun b => by
    have := b.toNat_lt
    omega
  obtain ⟨k, x, y, n, kk, nnn⟩ := i
  cases k with
  | cls => exact ⟨_, rfl, hm.setScreen rfl rfl (Screen.binary_clear _)⟩
  | ret =>
    obtain ⟨a, t, hpop, hcap, -, -⟩ := CallStack.pop_of_pos (hret rfl)
    have ha := a.toNat_lt
    refine ⟨{ m with stack := t, ip := a.toNat }, ?_, (hm.setStack hcap).setIp (by omega)⟩
    simp only [exec, Machine.ret, hpop]
    rfl
  | jump => exact ⟨_, rfl, hm.setIp (by simp only []; omega)⟩
  | call =>
    have hroom : m.stack.depth < m.stack.capacity := by
      have := hcall rfl
      rw [hm.stack_capacity]
      omega
    obtain ⟨t, hpush, hcap, -⟩ := CallStack.push_of_lt hroom m.ip
    refine ⟨{ m with stack := t, ip := nnn.val }, ?_, (hm.setStack hcap).setIp (by omega)⟩
    simp only [exec, Machine.call, hpush]
    rfl
  | skipEqByte | skipNeByte | skipEqReg | skipNeReg | skipKeyHeld | skipKeyFree =>
    exact ⟨_, rfl, hm.skipIf _⟩
  | loadByte | addByte | copy | or | and | xor | random => exact ⟨_, rfl, hm.setReg _ _⟩
  | add | sub | shiftRight | subFrom | shiftLeft => exact ⟨_, rfl, hm.setFlagged _ _ _⟩
  | idle => exact ⟨_, rfl, hm⟩
  | loadIndex => exact ⟨_, rfl, hm.setIndex (by simp only []; omega)⟩
  | jumpOffset => exact ⟨_, rfl, hm.setIp (Machine.word_bounds _)⟩
  | draw =>
    refine ⟨m.drawn x y n, ?_, hm.drawn x y n⟩
    simp only [exec, Machine.draw_eq hmem hm.hasPixels]
    rfl
  | readDelay =>
    refine ⟨m.setReg x (UInt8.ofInt m.delay), ?_, hm.setReg x _⟩
    simp only [exec, Machine.readDelay_eq hm.delay_bounds]
    rfl
  | waitKey => exact ⟨_, rfl, hm.waitKey _ _⟩
  | setDelay => exact ⟨_, rfl, hm.setDelay (hbyte _)⟩
  | setSound => exact ⟨_, rfl, hm.setSound (hbyte _)⟩
  | addIndex => exact ⟨_, rfl, hm.setIndex (Machine.word_bounds _)⟩
  | loadGlyph =>
    refine ⟨_, rfl, hm.setIndex ?_⟩
    simp only [glyphBase, glyphHeight]
    omega
  | storeDecimal =>
    refine ⟨m.stored m.index (Machine.decimalDigits (m.reg x)), ?_, hm.stored _ _⟩
    simp only [exec, Machine.storeBytes_eq hmem]
    rfl
  | storeRegs =>
    refine ⟨m.stored m.index (m.regsUpTo x), ?_, hm.stored _ _⟩
    simp only [exec, Machine.storeBytes_eq hmem]
    rfl
  | loadRegs =>
    refine ⟨m.setRegs (m.bytes m.index (x.val + 1)), ?_, hm.setRegs _⟩
    simp only [exec, Machine.bytesAt_eq hmem]
    rfl

/-- What an instruction comes to on a well-formed machine. -/
inductive Executed (i : Instr) (m : Machine) (h : Host) : Except Fault (Machine × Host) → Prop where
  /-- A call finds the stack full. -/
  | overflow (hk : i.kind = .call) (hd : m.stack.depth = stackSize) :
    Executed i m h (.error (.stack .overflow))
  /-- A return finds the stack empty. -/
  | underflow (hk : i.kind = .ret) (hd : m.stack.depth = 0) :
    Executed i m h (.error (.stack .underflow))
  /-- The instruction goes through. -/
  | done (m' : Machine) (hcall : i.kind = .call → m.stack.depth < stackSize)
      (hret : i.kind = .ret → 0 < m.stack.depth) (hm : m'.WellFormed) :
    Executed i m h (.ok (m', i.touch h))

theorem exec_executed (hm : m.WellFormed) (h : Host) : i.Executed m h (i.exec m h) := by
  by_cases hfull : i.kind = .call ∧ m.stack.depth = stackSize
  · rw [exec_call_full hm hfull.1 hfull.2]
    exact .overflow hfull.1 hfull.2
  by_cases hempty : i.kind = .ret ∧ m.stack.depth = 0
  · rw [exec_ret_empty hempty.1 hempty.2]
    exact .underflow hempty.1 hempty.2
  have hcall : i.kind = .call → m.stack.depth < stackSize := fun hk =>
    Nat.lt_of_le_of_ne hm.depth_le fun hd => hfull ⟨hk, hd⟩
  have hret : i.kind = .ret → 0 < m.stack.depth := fun hk =>
    Nat.pos_of_ne_zero fun hd => hempty ⟨hk, hd⟩
  obtain ⟨m', hexec, hm'⟩ := exec_ok hm hcall hret h
  rw [hexec]
  exact .done m' hcall hret hm'

/-- Which fault an instruction ends with, if any. -/
theorem Executed.error_iff {h : Host} {r : Except Fault (Machine × Host)} (hx : i.Executed m h r)
    (f : Fault) :
    r = .error f ↔
      (f = .stack .overflow ∧ i.kind = .call ∧ m.stack.depth = stackSize) ∨
        (f = .stack .underflow ∧ i.kind = .ret ∧ m.stack.depth = 0) := by
  have hsize : stackSize = 16 := rfl
  cases hx with
  | overflow hk hd =>
    simp only [Except.error.injEq, hk, hd, hsize]
    grind
  | underflow hk hd =>
    simp only [Except.error.injEq, hk, hd, hsize]
    grind
  | done m' hcall hret hm' =>
    refine ⟨nofun, ?_⟩
    rintro (⟨-, hk, hd⟩ | ⟨-, hk, hd⟩)
    · have := hcall hk
      omega
    · have := hret hk
      omega

end Instr

end Chip8
