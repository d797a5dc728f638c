import Chip8.Proofs.Footprint

/-!
# Where execution goes on

The instruction pointer is moved when a word is fetched, again by a jump or a skip, and back by an
instruction that waits. What comes out of it is a function of the state before the cycle.

* `Instr.skips`, `Instr.next`: the condition of a skip, and the address of the next instruction.
* `Instr.exec_next`: an instruction that goes through leaves the instruction pointer there.
* `Instr.Opposed`: skips on opposite conditions.
* `Emulator.cycle_next`: a cycle goes on at that address, and of two opposed skips one skips.
-/

namespace Chip8

theorem Keypad.firstHeld?_eq_none_iff {k : Keypad} :
    k.firstHeld? = none ↔ ∀ key, k.isHeld key = false := by
  simp [firstHeld?]

/-- The first register, which a jump with an offset adds to its target. -/
def baseRegister : Fin 16 := flagRegister.rev

namespace Instr

/-- The condition under which an instruction skips the next one. -/
def skips (i : Instr) (m : Machine) (k : Keypad) : Bool :=
  match i.kind with
  | .skipEqByte => m.reg i.x = i.kk
  | .skipNeByte => m.reg i.x ≠ i.kk
  | .skipEqReg => m.reg i.x = m.reg i.y
  | .skipNeReg => m.reg i.x ≠ m.reg i.y
  | .skipKeyHeld => k.isHeld (m.keyIn i.x)
  | .skipKeyFree => !k.isHeld (m.keyIn i.x)
  | _ => false

/-- The address of the instruction behind one that the instruction pointer stands on: the target of
a jump, call or return, the instruction itself if it waits for a key, and the next word or the one
behind it otherwise. -/
def next (i : Instr) (m : Machine) (k : Keypad) : Int :=
  match i.kind with
  | .jump | .call => i.nnn.val
  | .jumpOffset => (m.reg baseRegister).toNat + i.nnn.val
  | .ret => (m.stack.live.getLastD 0).toNat
  | .waitKey => if ∀ key, k.isHeld key = false then m.ip else (m.ip + 2) % 0x10000
  | _ => if i.skips m k then (m.ip + 4) % 0x10000 else (m.ip + 2) % 0x10000

theorem ip_skipIf (m : Machine) (condition : Bool) :
    (m.advance.skipIf condition).ip =
      if condition then (m.ip + 4) % 0x10000 else (m.ip + 2) % 0x10000 := by
  cases condition with
  | false => rfl
  | true =>
    have hsum : ((m.ip + 2) % 0x10000 + 2) % 0x10000 = (m.ip + 4) % 0x10000 := by omega
    exact hsum

theorem ip_waitKey {m : Machine} (hm : m.WellFormed) (x : Fin 16) (k : Keypad) :
    (m.advance.waitKey x k.firstHeld?).ip =
      if ∀ key, k.isHeld key = false then m.ip else (m.ip + 2) % 0x10000 := by
  simp only [← Keypad.firstHeld?_eq_none_iff]
  cases k.firstHeld? with
  | none =>
    have hback : ((m.ip + 2) % 0x10000 - 2) % 0x10000 = m.ip := by
      have := hm.ip_bounds
      omega
    exact hback
  | some key => rfl

/-- An instruction that takes effect behind its word leaves the instruction pointer where execution
goes on. -/
theorem exec_next {i : Instr} {m m' : Machine} {h h' : Host} (hm : m.WellFormed)
    (hexec : i.exec m.advance h = .ok (m', h')) : m'.ip = i.next m h.keypad := by
  have hmem : m.advance.memory.size = memorySize := hm.memory_size
  obtain ⟨kind, x, y, n, kk, nnn⟩ := i
  cases kind with
  | skipEqByte | skipEqReg | skipKeyHeld | skipKeyFree =>
    cases hexec
    exact ip_skipIf m _
  | skipNeByte | skipNeReg =>
    cases hexec
    refine (ip_skipIf m _).trans ?_
    simp only [next, skips, bne, decide_not]
    rfl
  | ret =>
    simp only [exec, Machine.ret] at hexec
    cases hpop : m.advance.stack.pop with
    | error f =>
      rw [hpop] at hexec
      cases hexec
    | ok r =>
      rw [hpop] at hexec
      cases hexec
      have hlive : m.stack.live = r.2.live ++ [r.1] := CallStack.live_of_pop hpop
      simp only [next, hlive, List.getLastD_concat]
  | call =>
    simp only [exec, Machine.call] at hexec
    cases hpush : m.advance.stack.push m.advance.ip with
    | error f =>
      rw [hpush] at hexec
      cases hexec
    | ok s =>
      rw [hpush] at hexec
      cases hexec
      rfl
  | jumpOffset =>
    cases hexec
    have hv := (m.reg baseRegister).toNat_lt
    have hsum : ((m.reg baseRegister).toNat + nnn.val : Int) % 0x10000 =
        (m.reg baseRegister).toNat + nnn.val := by omega
    exact hsum
  | waitKey =>
    cases hexec
    exact ip_waitKey hm x h.keypad
  | draw =>
    simp only [exec, Machine.draw_eq hmem hm.advance.hasPixels] at hexec
    cases hexec
    rfl
  | readDelay =>
    simp only [exec, Machine.readDelay_eq hm.advance.delay_bounds] at hexec
    cases hexec
    rfl
  | storeDecimal | storeRegs =>
    simp only [exec, Machine.storeBytes_eq hmem] at hexec
    cases hexec
    rfl
  | loadRegs =>
    simp only [exec, Machine.bytesAt_eq hmem] at hexec
    cases hexec
    simp only [Machine.setRegs]
    rfl
  | _ =>
    cases hexec
    rfl

/-! ## Opposite conditions -/

/-- The one instruction skips on a condition and the other on its opposite. -/
inductive Opposed (i j : Instr) : Prop where
  | byte (hi : i.kind = .skipEqByte) (hj : j.kind = .skipNeByte) (hx : j.x = i.x)
    (hkk : j.kk = i.kk)
  | reg (hi : i.kind = .skipEqReg) (hj : j.kind = .skipNeReg) (hx : j.x = i.x) (hy : j.y = i.y)
  | key (hi : i.kind = .skipKeyHeld) (hj : j.kind = .skipKeyFree) (hx : j.x = i.x)

theorem Opposed.skips {i j : Instr} (h : i.Opposed j) {m n : Machine} (hv : n.v = m.v)
    {k l : Keypad} (hheld : l.held = k.held) : j.skips n l = !i.skips m k := by
  have hreg : ∀ r, n.reg r = m.reg r := fun r => by rw [Machine.reg, Machine.reg, hv]
  cases h with
  | byte hi hj hx hkk => simp [Instr.skips, hi, hj, hx, hkk, hreg]
  | reg hi hj hx hy => simp [Instr.skips, hi, hj, hx, hy, hreg]
  | key hi hj hx => simp [Instr.skips, hi, hj, hx, hreg, Machine.keyIn, Keypad.isHeld, hheld]

theorem Opposed.next_left {i j : Instr} (h : i.Opposed j) (m : Machine) (k : Keypad) :
    i.next m k = if i.skips m k then (m.ip + 4) % 0x10000 else (m.ip + 2) % 0x10000 := by
  cases h with
  | byte hi | reg hi | key hi => simp only [next, hi]

theorem Opposed.next_right {i j : Instr} (h : i.Opposed j) (m : Machine) (k : Keypad) :
    j.next m k = if j.skips m k then (m.ip + 4) % 0x10000 else (m.ip + 2) % 0x10000 := by
  cases h with
  | byte _ hj | reg _ hj | key _ hj => simp only [next, hj]

end Instr

namespace Emulator

variable {e : Emulator}

/-- A cycle goes through unless it is a call on a full stack or a return on an empty one. -/
theorem cycle_ok_iff (he : e.WellFormed) (hr : e.mode = .running) {i : Instr}
    (hi : Instr.ofWord? e.word = some i) :
    e.cycle.1 = .ok () ↔
      (i.kind = .call → e.machine.stack.depth < 16) ∧
        (i.kind = .ret → 0 < e.machine.stack.depth) := by
  have hc := cycle_cycled he hr
  generalize e.cycle = r at hc ⊢
  cases hc with
  | undecoded hw => exact absurd (Instr.matches_of_ofWord? e.word_lt hi) (hw i.kind)
  | overflow j hj hk hd =>
    rw [hi, Option.some.injEq] at hj
    subst hj
    refine ⟨nofun, fun hok => ?_⟩
    have := hok.1 hk
    rw [hd] at this
    exact absurd this (by decide)
  | underflow j hj hk hd =>
    rw [hi, Option.some.injEq] at hj
    subst hj
    refine ⟨nofun, fun hok => ?_⟩
    have := hok.2 hk
    omega
  | done j hj m hcall hret =>
    rw [hi, Option.some.injEq] at hj
    subst hj
    exact ⟨fun _ => ⟨hcall, hret⟩, fun _ => rfl⟩

/-- A cycle that goes through leaves the instruction pointer where execution goes on. -/
theorem ip_cycle (he : e.WellFormed) (hr : e.mode = .running) {i : Instr}
    (hi : Instr.ofWord? e.word = some i) (hok : e.cycle.1 = .ok ()) :
    e.cycle.2.machine.ip = i.next e.machine e.host.keypad := by
  have hc := cycle_cycled he hr
  generalize e.cycle = r at hc hok ⊢
  cases hc with
  | undecoded | overflow | underflow => cases hok
  | done j hj m _ _ hexec =>
    rw [hi, Option.some.injEq] at hj
    subst hj
    exact Instr.exec_next he.machine hexec

/-- **Control flow.** A cycle that finds an instruction goes through unless it is a call on a full
stack or a return on an empty one, and then execution goes on at the address that `Instr.next`
gives. In two states that are the same but for memory, where the one instruction is a skip and the
other its opposite, exactly one of them skips. -/
theorem cycle_next (he : e.WellFormed) (hr : e.mode = .running) {i : Instr}
    (hi : Instr.ofWord? e.word = some i) :
    (e.cycle.1 = .ok () ↔
      (i.kind = .call → e.machine.stack.depth < 16) ∧
        (i.kind = .ret → 0 < e.machine.stack.depth)) ∧
    (e.cycle.1 = .ok () → e.cycle.2.machine.ip = i.next e.machine e.host.keypad) ∧
    ∀ (f : Emulator) (j : Instr), f.WellFormed → f.mode = .running →
      f.machine = { e.machine with memory := f.machine.memory } →
      f.host.keypad.held = e.host.keypad.held → Instr.ofWord? f.word = some j → i.Opposed j →
      (e.cycle.2.machine.ip = (e.machine.ip + 4) % 0x10000 ∧
          f.cycle.2.machine.ip = (e.machine.ip + 2) % 0x10000 ∨
        e.cycle.2.machine.ip = (e.machine.ip + 2) % 0x10000 ∧
          f.cycle.2.machine.ip = (e.machine.ip + 4) % 0x10000) := by
  refine ⟨cycle_ok_iff he hr hi, ip_cycle he hr hi, ?_⟩
  intro f j hf hr' hsame hheld hj hopp
  have hok : e.cycle.1 = .ok () := by
    rw [cycle_ok_iff he hr hi]
    cases hopp with
    | byte hk | reg hk | key hk => simp [hk]
  have hok' : f.cycle.1 = .ok () := by
    rw [cycle_ok_iff hf hr' hj]
    cases hopp with
    | byte _ hk | reg _ hk | key _ hk => simp [hk]
  have hv : f.machine.v = e.machine.v := by rw [hsame]
  have hip : f.machine.ip = e.machine.ip := by rw [hsame]
  rw [ip_cycle he hr hi hok, ip_cycle hf hr' hj hok', hopp.next_left, hopp.next_right,
    hopp.skips hv hheld, hip]
  cases i.skips e.machine e.host.keypad with
  | true => exact .inl ⟨rfl, rfl⟩
  | false => exact .inr ⟨rfl, rfl⟩

/-- A skip across the end of the 16-bit addresses, and the opposite skip in its place. -/
theorem cycle_next_around :
    let around (first : UInt8) : Emulator :=
      { machine := { Machine.blank with
          memory := Machine.blank.memory.put 0xFFD first
          ip := 0xFFFD }
        host := .still }
    let e := around 0x31
    let f := around 0x41
    e.WellFormed ∧ Instr.ofWord? e.word = some (.ofKind .skipEqByte 0x3100) ∧
      Instr.ofWord? f.word = some (.ofKind .skipNeByte 0x4100) ∧
      e.cycle.2.machine.ip = 0x0001 ∧ f.cycle.2.machine.ip = 0xFFFF := by
  intro around e f
  have hsize : Machine.blank.memory.size = memorySize := Machine.wellFormed_blank.memory_size
  have hwell : ∀ first, (around first).WellFormed := by
    intro first
    have hput : (Machine.blank.memory.put 0xFFD first).size = memorySize :=
      (Memory.size_put _ _ _).trans hsize
    exact ⟨(Machine.wellFormed_blank.setMemory hput).setIp (by decide), rfl⟩
  have hword : ∀ first, (around first).word = first.toNat * 0x100 := by
    intro first
    have hrange : Machine.blank.memory.InRange 0xFFD := by
      rw [Memory.InRange, hsize]
      decide
    have hhigh : (around first).machine.byteAt 0xFFFD = first := by
      rw [Machine.byteAt, show Machine.address 0xFFFD = 0xFFD by decide, Memory.get_put,
        if_pos ⟨rfl, hrange⟩]
    have hlow : (around first).machine.byteAt 0xFFFE = 0 := by
      rw [Machine.byteAt, show Machine.address 0xFFFE = 0xFFE by decide, Memory.get_put,
        if_neg (by decide)]
      exact Memory.get_zeros _ _
    have hbytes : (around first).word = ((around first).machine.byteAt 0xFFFD).toNat * 0x100 +
        ((around first).machine.byteAt 0xFFFE).toNat := rfl
    rw [hbytes, hhigh, hlow]
    exact Nat.add_zero _
  have hi : Instr.ofWord? e.word = some (.ofKind .skipEqByte 0x3100) := by
    rw [hword]
    decide
  have hj : Instr.ofWord? f.word = some (.ofKind .skipNeByte 0x4100) := by
    rw [hword]
    decide
  have hsame : ∀ a b, (around b).machine =
      { (around a).machine with memory := (around b).machine.memory } := fun _ _ => rfl
  have hopp : (Instr.ofKind .skipEqByte 0x3100).Opposed (.ofKind .skipNeByte 0x4100) :=
    .byte rfl rfl (by decide) (by decide)
  obtain ⟨hok, hnext, hother⟩ := cycle_next (e := e) (hwell 0x31) rfl hi
  have hip : e.cycle.2.machine.ip = 0x0001 := by
    rw [hnext (hok.2 (by decide))]
    decide
  refine ⟨hwell 0x31, hi, hj, hip, ?_⟩
  obtain ⟨-, hf⟩ | ⟨he, -⟩ := hother f _ (hwell 0x41) rfl (hsame 0x31 0x41) rfl hj hopp
  · rw [hf]
    decide
  · have hfar : (e.machine.ip + 2) % 0x10000 = 0xFFFF := by decide
    exact absurd (hip.symm.trans (he.trans hfar)) (by decide)

end Emulator

end Chip8
