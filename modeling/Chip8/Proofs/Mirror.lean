import Chip8.Proofs.Exec
import Chip8.Proofs.Host

/-!
# Addresses of twelve bits

Instruction pointer, index and return addresses are kept to 16 bits, but memory has 12-bit
addresses. Machines that agree on all but the upper four bits of their addresses cannot be told
apart by their instructions.

* `Machine.Mirrors`: machines that agree up to the upper bits of their addresses.
* `Machine.Mirrors.wordAt_ip`: they fetch the same word.
* `Machine.Mirrors.push`, `Machine.Mirrors.pop`: their stacks stay alike.
* `Instr.exec_mirrors`: an instruction does the same to both.
-/

namespace Chip8

namespace Machine

/-- The addresses of memory that the live return addresses denote, oldest first. -/
def returns (m : Machine) : List Int := m.stack.live.map fun a => address a.toNat

/-- The machines agree but for the parts of their addresses that memory does not see, and for slots
of their stacks that are not live. -/
structure Mirrors (m n : Machine) : Prop where
  /-- The same memory. -/
  memory : m.memory = n.memory
  /-- The same registers. -/
  v : m.v = n.v
  /-- The same index, up to the size of memory. -/
  index : address m.index = address n.index
  /-- The same instruction pointer, up to the size of memory. -/
  ip : address m.ip = address n.ip
  /-- The same live return addresses, up to the size of memory. -/
  returns : m.returns = n.returns
  /-- The same delay timer. -/
  delay : m.delay = n.delay
  /-- The same sound timer. -/
  sound : m.sound = n.sound
  /-- The same screen. -/
  screen : m.screen = n.screen
  /-- The same word fetched last. -/
  opcode : m.opcode = n.opcode

/-- A return address denotes the address that was pushed. -/
theorem address_ofInt (a : Int) : address (UInt16.ofInt a).toNat = address a := by
  unfold UInt16.ofInt address memorySize
  rw [UInt16.toNat_ofNat']
  omega

theorem Mirrors.refl (m : Machine) : m.Mirrors m := ⟨rfl, rfl, rfl, rfl, rfl, rfl, rfl, rfl, rfl⟩

namespace Mirrors

variable {m n : Machine}

/-! ## What mirrored machines read -/

theorem reg (h : m.Mirrors n) (r : Fin 16) : m.reg r = n.reg r := by
  rw [Machine.reg, Machine.reg, h.v]

theorem depth (h : m.Mirrors n) : m.stack.depth = n.stack.depth := by
  have hlen := congrArg List.length h.returns
  simpa only [Machine.returns, List.length_map, CallStack.length_live] using hlen

theorem byteAt (h : m.Mirrors n) {a b : Int} (hab : address a = address b) :
    m.byteAt a = n.byteAt b := by
  rw [Machine.byteAt, Machine.byteAt, h.memory, hab]

theorem wordAt_ip (h : m.Mirrors n) : m.wordAt m.ip = n.wordAt n.ip := by
  rw [wordAt, wordAt, h.byteAt h.ip, h.byteAt (address_add h.ip 1)]

theorem bytes_index (h : m.Mirrors n) (k : Nat) : m.bytes m.index k = n.bytes n.index k := by
  have hbyte : (fun (j : Nat) => m.byteAt (m.index + j)) =
      fun (j : Nat) => n.byteAt (n.index + j) := by
    funext j
    exact h.byteAt (address_add h.index j)
  rw [bytes, bytes, hbyte]

theorem sprite (h : m.Mirrors n) (x y : Fin 16) (k : Nat) : m.sprite x y k = n.sprite x y k := by
  rw [Machine.sprite, Machine.sprite, h.reg, h.reg, h.bytes_index]

/-! ## Changes that keep machines mirrored -/

theorem setV (h : m.Mirrors n) (v : Vector UInt8 16) : { m with v }.Mirrors { n with v } :=
  { h with v := rfl }

theorem setReg (h : m.Mirrors n) (r : Fin 16) (b : UInt8) :
    (m.setReg r b).Mirrors (n.setReg r b) := by
  rw [Machine.setReg, Machine.setReg, h.v]
  exact h.setV _

theorem setFlagged (h : m.Mirrors n) (r : Fin 16) (b : UInt8) (flag : Bool) :
    (m.setFlagged r b flag).Mirrors (n.setFlagged r b flag) := (h.setReg r b).setReg _ _

theorem setRegs (h : m.Mirrors n) (bs : List UInt8) : (m.setRegs bs).Mirrors (n.setRegs bs) := by
  simp only [Machine.setRegs, h.reg]
  exact h.setV _

theorem setIp (h : m.Mirrors n) {a b : Int} (hab : address a = address b) :
    { m with ip := a }.Mirrors { n with ip := b } := { h with ip := hab }

theorem setIndex (h : m.Mirrors n) {a b : Int} (hab : address a = address b) :
    { m with index := a }.Mirrors { n with index := b } := { h with index := hab }

theorem setDelay (h : m.Mirrors n) (delay : Int) : { m with delay }.Mirrors { n with delay } :=
  { h with delay := rfl }

theorem setSound (h : m.Mirrors n) (sound : Int) : { m with sound }.Mirrors { n with sound } :=
  { h with sound := rfl }

theorem setScreen (h : m.Mirrors n) (screen : Screen) :
    { m with screen }.Mirrors { n with screen } := { h with screen := rfl }

theorem stored (h : m.Mirrors n) (bs : List UInt8) :
    (m.stored m.index bs).Mirrors (n.stored n.index bs) :=
  { h with memory := by rw [Machine.stored, Machine.stored, h.memory, putBytes_congr h.index] }

theorem drawn (h : m.Mirrors n) (x y : Fin 16) (k : Nat) :
    (m.drawn x y k).Mirrors (n.drawn x y k) := by
  rw [Machine.drawn, Machine.drawn, h.sprite, h.screen]
  exact (h.setScreen _).setReg _ _

/-- The instruction pointers may be moved alike, also around their 16 bits. -/
theorem address_ip_add (h : m.Mirrors n) (k : Int) :
    address (word (m.ip + k)) = address (word (n.ip + k)) := by
  rw [address_word, address_word]
  exact address_add h.ip k

theorem skipIf (h : m.Mirrors n) (condition : Bool) :
    (m.skipIf condition).Mirrors (n.skipIf condition) := by
  cases condition with
  | false => exact h
  | true => exact h.setIp (h.address_ip_add 2)

theorem waitKey (h : m.Mirrors n) (x : Fin 16) (key : Option (Fin 16)) :
    (m.waitKey x key).Mirrors (n.waitKey x key) := by
  cases key with
  | none => exact h.setIp (h.address_ip_add (-2))
  | some key => exact h.setReg x _

theorem addIndex (h : m.Mirrors n) (k : Int) :
    { m with index := word (m.index + k) }.Mirrors { n with index := word (n.index + k) } := by
  refine h.setIndex ?_
  rw [address_word, address_word]
  exact address_add h.index k

theorem tick (h : m.Mirrors n) : m.tick.Mirrors n.tick := by
  rw [Machine.tick, Machine.tick, h.delay, h.sound]
  exact (h.setDelay (countDown n.delay)).setSound (countDown n.sound)

/-- Pushing the instruction pointers leaves the same live addresses. -/
theorem push (h : m.Mirrors n) {s t : CallStack} (hs : m.stack.push m.ip = .ok s)
    (ht : n.stack.push n.ip = .ok t) : { m with stack := s }.Mirrors { n with stack := t } := by
  have hlive : ∀ {k : Machine} {u : CallStack}, k.stack.push k.ip = .ok u →
      { k with stack := u }.returns = k.returns ++ [address k.ip] := by
    intro k u hu
    rw [Machine.returns, CallStack.live_of_push hu, List.map_append, List.map_singleton,
      address_ofInt, Machine.returns]
  refine { h with returns := ?_ }
  rw [hlive hs, hlive ht, h.returns, h.ip]

/-- Popping leaves the same live addresses, and gives the same one. -/
theorem pop (h : m.Mirrors n) {s t : CallStack} {a b : UInt16} (hs : m.stack.pop = .ok (a, s))
    (ht : n.stack.pop = .ok (b, t)) :
    { m with stack := s, ip := a.toNat }.Mirrors { n with stack := t, ip := b.toNat } := by
  have hreturns := h.returns
  rw [Machine.returns, Machine.returns, CallStack.live_of_pop hs, CallStack.live_of_pop ht,
    List.map_append, List.map_append] at hreturns
  obtain ⟨hlive, hlast⟩ := List.append_inj' hreturns rfl
  exact { h with returns := hlive, ip := List.singleton_inj.1 hlast }

end Mirrors

end Machine

/-! ## Instructions -/

theorem Instr.touch_alike (i : Instr) {g k : Host} (ha : g.Alike k) :
    (i.touch g).Alike (i.touch k) := by
  unfold touch
  split
  · exact ⟨ha.held, ha.next⟩
  · exact ⟨ha.held, ha.upcoming⟩
  · exact ha

/-- What an instruction uses of its host depends on its kind only. -/
theorem Instr.touch_uses (i : Instr) :
    ∃ draws redraw, ∀ h : Host, h.Uses (i.touch h) draws redraw := by
  unfold touch
  cases i.kind with
  | random => exact ⟨1, false, fun h => ⟨rfl, (Bool.or_false _).symm⟩⟩
  | draw => exact ⟨0, true, fun h => ⟨rfl, (Bool.or_true _).symm⟩⟩
  | _ => exact ⟨0, false, .refl⟩

/-- What an instruction comes to on two machines: the same fault, or mirrored machines. -/
inductive Instr.Mirrored (i : Instr) (g k : Host) :
    Except Fault (Machine × Host) → Except Fault (Machine × Host) → Prop where
  /-- It goes through on both. -/
  | ok {m n : Machine} (h : m.Mirrors n) : Mirrored i g k (.ok (m, i.touch g)) (.ok (n, i.touch k))
  /-- It fails on both. -/
  | error (f : Fault) : Mirrored i g k (.error f) (.error f)

/-- **Mirroring.** An instruction does the same to mirrored machines whose hosts are alike. -/
theorem Instr.exec_mirrors (i : Instr) {m n : Machine} (hm : m.WellFormed) (hn : n.WellFormed)
    (h : m.Mirrors n) {g k : Host} (ha : g.Alike k) : i.Mirrored g k (i.exec m g) (i.exec n k) := by
  obtain ⟨kind, x, y, nib, kk, nnn⟩ := i
  have hreg := h.reg
  have hdepth := h.depth
  cases kind with
  | idle => exact .ok h
  | cls =>
    simp only [exec, h.screen]
    exact .ok (h.setScreen _)
  | ret =>
    rcases Nat.eq_zero_or_pos m.stack.depth with hempty | hlive
    · rw [exec_ret_empty rfl hempty, exec_ret_empty rfl (hdepth.symm.trans hempty)]
      exact .error _
    · obtain ⟨a, s, hs, -⟩ := CallStack.pop_of_pos hlive
      obtain ⟨b, t, ht, -⟩ := CallStack.pop_of_pos (hdepth ▸ hlive)
      simp only [exec, Machine.ret, hs, ht]
      exact .ok (h.pop hs ht)
  | call =>
    rcases Nat.eq_or_lt_of_le hm.depth_le with hfull | hroom
    · rw [exec_call_full hm rfl hfull, exec_call_full hn rfl (hdepth.symm.trans hfull)]
      exact .error _
    · have hcm := hm.stack_capacity
      have hcn := hn.stack_capacity
      obtain ⟨s, hs, -⟩ := CallStack.push_of_lt (s := m.stack) (by omega) m.ip
      obtain ⟨t, ht, -⟩ := CallStack.push_of_lt (s := n.stack) (by omega) n.ip
      simp only [exec, Machine.call, hs, ht]
      exact .ok ((h.push hs ht).setIp rfl)
  | jump => exact .ok (h.setIp rfl)
  | jumpOffset =>
    simp only [exec, hreg]
    exact .ok (h.setIp rfl)
  | loadIndex => exact .ok (h.setIndex rfl)
  | loadGlyph =>
    simp only [exec, hreg]
    exact .ok (h.setIndex rfl)
  | addIndex =>
    simp only [exec, hreg]
    exact .ok (h.addIndex _)
  | skipEqByte | skipNeByte | skipEqReg | skipNeReg =>
    simp only [exec, hreg]
    exact .ok (h.skipIf _)
  | skipKeyHeld | skipKeyFree =>
    simp only [exec, Machine.keyIn, hreg, ha.isHeld]
    exact .ok (h.skipIf _)
  | loadByte | addByte | copy | or | and | xor =>
    simp only [exec, hreg]
    exact .ok (h.setReg _ _)
  | random =>
    simp only [exec, RandomSource.next_fst, ha.upcoming]
    exact .ok (h.setReg _ _)
  | add | sub | shiftRight | subFrom | shiftLeft =>
    simp only [exec, hreg]
    exact .ok (h.setFlagged _ _ _)
  | setDelay =>
    simp only [exec, hreg]
    exact .ok (h.setDelay _)
  | setSound =>
    simp only [exec, hreg]
    exact .ok (h.setSound _)
  | waitKey =>
    simp only [exec, ha.firstHeld?]
    exact .ok (h.waitKey _ _)
  | draw =>
    simp only [exec, Machine.draw_eq hm.memory_size hm.hasPixels,
      Machine.draw_eq hn.memory_size hn.hasPixels]
    exact .ok (h.drawn _ _ _)
  | readDelay =>
    simp only [exec, Machine.readDelay_eq hm.delay_bounds, Machine.readDelay_eq hn.delay_bounds,
      h.delay]
    exact .ok (h.setReg _ _)
  | storeDecimal =>
    simp only [exec, Machine.storeBytes_eq hm.memory_size, Machine.storeBytes_eq hn.memory_size,
      hreg]
    exact .ok (h.stored _)
  | storeRegs =>
    simp only [exec, Machine.storeBytes_eq hm.memory_size, Machine.storeBytes_eq hn.memory_size,
      Machine.regsUpTo, h.v]
    exact .ok (h.stored _)
  | loadRegs =>
    simp only [exec, Machine.bytesAt_eq hm.memory_size, Machine.bytesAt_eq hn.memory_size,
      h.bytes_index]
    exact .ok (h.setRegs _)

end Chip8
