import Chip8.Proofs.Loading

/-!
# Footprints of instructions

Each instruction has a footprint, the places that it may write, which are told by its kind, its
registers and the index. Nothing else changes, however its operands coincide and wherever a block
wraps around the end of memory.

* `Place`, `Machine.SameAt`: the parts of a machine, and machines that agree at one.
* `Instr.Writes`: the places that an instruction may write.
* `Instr.exec_sameAt`: an instruction changes no other place.
* `Instr.touch_eq`: what it does to its host.
* `Emulator.cycle_footprint`: a cycle stays within the footprint of its instruction.
-/

namespace Chip8

/-! ## Places -/

/-- A part of a machine. The instruction pointer and the fetched word change with every cycle and
are no places. -/
inductive Place where
  /-- The cell of memory at an address. -/
  | cell (a : Int)
  /-- A register. -/
  | reg (r : Fin 16)
  /-- The index. -/
  | index
  /-- The stack, its depth and all of its slots. -/
  | stack
  /-- The delay timer. -/
  | delay
  /-- The sound timer. -/
  | sound
  /-- The screen. -/
  | screen

namespace Machine

/-- The machines agree at a place. -/
def SameAt (m m' : Machine) : Place → Prop
  | .cell a => m'.memory.get a = m.memory.get a
  | .reg r => m'.reg r = m.reg r
  | .index => m'.index = m.index
  | .stack => m'.stack = m.stack
  | .delay => m'.delay = m.delay
  | .sound => m'.sound = m.sound
  | .screen => m'.screen = m.screen

variable {m m' m'' : Machine} {p : Place}

theorem SameAt.refl (m : Machine) (p : Place) : m.SameAt m p := by cases p <;> rfl

theorem SameAt.trans (h : m.SameAt m' p) (h' : m'.SameAt m'' p) : m.SameAt m'' p := by
  cases p <;> exact Eq.trans h' h

/-! ## Changes and the places that they leave -/

theorem sameAt_setIp (m : Machine) (ip : Int) (p : Place) : m.SameAt { m with ip } p := by
  cases p <;> rfl

theorem sameAt_advance (m : Machine) (p : Place) : m.SameAt m.advance p := by cases p <;> rfl

theorem sameAt_skipIf (m : Machine) (condition : Bool) (p : Place) :
    m.SameAt (m.skipIf condition) p := by
  cases condition with
  | false => exact .refl m p
  | true => exact m.sameAt_setIp _ p

theorem sameAt_setReg {r : Fin 16} (hp : p ≠ .reg r) (b : UInt8) : m.SameAt (m.setReg r b) p := by
  cases p with
  | reg s =>
    have hrs : r ≠ s := fun h => hp (congrArg Place.reg h.symm)
    exact (m.reg_setReg r s b).trans (if_neg hrs)
  | _ => rfl

theorem sameAt_setFlagged {r : Fin 16} (hp : p ≠ .reg r) (hf : p ≠ .reg flagRegister) (b : UInt8)
    (flag : Bool) : m.SameAt (m.setFlagged r b flag) p :=
  (sameAt_setReg hp b).trans (sameAt_setReg hf _)

theorem reg_setRegs (m : Machine) (bs : List UInt8) (r : Fin 16) :
    (m.setRegs bs).reg r = bs.getD r.val (m.reg r) := by
  simp only [reg, setRegs, Fin.getElem_fin, Vector.getElem_ofFn]

theorem sameAt_setRegs {bs : List UInt8} (hp : ∀ r : Fin 16, r.val < bs.length → p ≠ .reg r) :
    m.SameAt (m.setRegs bs) p := by
  cases p with
  | reg s =>
    have hs : bs.length ≤ s.val := Nat.le_of_not_lt fun h => hp s h rfl
    refine (m.reg_setRegs bs s).trans ?_
    rw [List.getD_eq_getElem?_getD, List.getElem?_eq_none hs, Option.getD_none]
  | _ => simp only [SameAt, setRegs]

/-- A cell that is not among those stored to keeps its byte. -/
theorem get_putBytes {memory : Memory} {a c : Int} {bs : List UInt8}
    (hc : ∀ k : Nat, k < bs.length → c ≠ address (a + k)) :
    (putBytes memory a bs).get c = memory.get c := by
  induction bs generalizing memory a with
  | nil => rfl
  | cons b bs ih =>
    rw [List.length_cons] at hc
    have hfirst : c ≠ address a := by simpa using hc 0 (Nat.succ_pos _)
    have hrest : ∀ k : Nat, k < bs.length → c ≠ address (a + 1 + k) := by
      intro k hk
      have hnext := hc (k + 1) (Nat.succ_lt_succ hk)
      rwa [Int.natCast_succ, Int.add_comm (k : Int), ← Int.add_assoc] at hnext
    rw [putBytes, ih hrest, Memory.get_put, if_neg fun h => hfirst h.1]

theorem sameAt_stored {a : Int} {bs : List UInt8}
    (hp : ∀ k : Nat, k < bs.length → p ≠ .cell (address (a + k))) : m.SameAt (m.stored a bs) p := by
  cases p with
  | cell c => exact get_putBytes fun k hk h => hp k hk (congrArg Place.cell h)
  | _ => rfl

theorem sameAt_setScreen (hp : p ≠ .screen) (screen : Screen) : m.SameAt { m with screen } p := by
  cases p with
  | screen => exact absurd rfl hp
  | _ => rfl

theorem sameAt_setIndex (hp : p ≠ .index) (index : Int) : m.SameAt { m with index } p := by
  cases p with
  | index => exact absurd rfl hp
  | _ => rfl

theorem sameAt_setStack (hp : p ≠ .stack) (stack : CallStack) (ip : Int) :
    m.SameAt { m with stack, ip } p := by
  cases p with
  | stack => exact absurd rfl hp
  | _ => rfl

theorem sameAt_setDelay (hp : p ≠ .delay) (delay : Int) : m.SameAt { m with delay } p := by
  cases p with
  | delay => exact absurd rfl hp
  | _ => rfl

theorem sameAt_setSound (hp : p ≠ .sound) (sound : Int) : m.SameAt { m with sound } p := by
  cases p with
  | sound => exact absurd rfl hp
  | _ => rfl

theorem sameAt_drawn (x y : Fin 16) (n : Nat) (hs : p ≠ .screen) (hf : p ≠ .reg flagRegister) :
    m.SameAt (m.drawn x y n) p := (sameAt_setScreen hs _).trans (sameAt_setReg hf _)

theorem sameAt_waitKey {x : Fin 16} (hp : p ≠ .reg x) (key : Option (Fin 16)) :
    m.SameAt (m.waitKey x key) p := by
  cases key with
  | none => exact m.sameAt_setIp _ p
  | some key => exact sameAt_setReg hp _

end Machine

/-! ## Footprints -/

namespace Instr

/-- The cells of memory that an instruction may write: three behind the index for decimal digits,
one behind it for each register stored, around the end of memory. -/
def WritesCell (i : Instr) (m : Machine) (a : Int) : Prop :=
  match i.kind with
  | .storeDecimal => ∃ k : Nat, k ≤ 2 ∧ a = (m.index + k) % 4096
  | .storeRegs => ∃ k : Nat, k ≤ i.x.val ∧ a = (m.index + k) % 4096
  | _ => False

/-- The registers that an instruction may write. -/
def WritesReg (i : Instr) (r : Fin 16) : Prop :=
  match i.kind with
  | .loadByte | .addByte | .random | .copy | .or | .and | .xor | .readDelay | .waitKey => r = i.x
  | .add | .sub | .shiftRight | .subFrom | .shiftLeft => r = i.x ∨ r = flagRegister
  | .draw => r = flagRegister
  | .loadRegs => r ≤ i.x
  | _ => False

/-- The places that an instruction may write. -/
def Writes (i : Instr) (m : Machine) : Place → Prop
  | .cell a => i.WritesCell m a
  | .reg r => i.WritesReg r
  | .index => i.kind = .loadIndex ∨ i.kind = .addIndex ∨ i.kind = .loadGlyph
  | .stack => i.kind = .call ∨ i.kind = .ret
  | .delay => i.kind = .setDelay
  | .sound => i.kind = .setSound
  | .screen => i.kind = .cls ∨ i.kind = .draw

/-- **Frame.** An instruction that goes through changes nothing outside its footprint. -/
theorem exec_sameAt {i : Instr} {m m' : Machine} {h h' : Host} (hm : m.WellFormed)
    (hexec : i.exec m h = .ok (m', h')) {p : Place} (hp : ¬ i.Writes m p) : m.SameAt m' p := by
  have hmem := hm.memory_size
  have outside : ∀ {q : Place}, i.Writes m q → p ≠ q := fun hq he => hp (he ▸ hq)
  obtain ⟨kind, x, y, n, kk, nnn⟩ := i
  cases kind with
  | idle =>
    cases hexec
    exact .refl m p
  | cls =>
    cases hexec
    exact Machine.sameAt_setScreen (outside (Or.inl rfl)) _
  | ret =>
    simp only [exec, Machine.ret] at hexec
    cases hpop : m.stack.pop with
    | error f =>
      rw [hpop] at hexec
      cases hexec
    | ok r =>
      rw [hpop] at hexec
      cases hexec
      exact Machine.sameAt_setStack (outside (Or.inr rfl)) _ _
  | call =>
    simp only [exec, Machine.call] at hexec
    cases hpush : m.stack.push m.ip with
    | error f =>
      rw [hpush] at hexec
      cases hexec
    | ok s =>
      rw [hpush] at hexec
      cases hexec
      exact Machine.sameAt_setStack (outside (Or.inl rfl)) _ _
  | jump | jumpOffset =>
    cases hexec
    exact m.sameAt_setIp _ p
  | skipEqByte | skipNeByte | skipEqReg | skipNeReg | skipKeyHeld | skipKeyFree =>
    cases hexec
    exact m.sameAt_skipIf _ p
  | loadByte | addByte | copy | or | and | xor | random =>
    cases hexec
    exact Machine.sameAt_setReg (outside rfl) _
  | add | sub | shiftRight | subFrom | shiftLeft =>
    cases hexec
    exact Machine.sameAt_setFlagged (outside (Or.inl rfl)) (outside (Or.inr rfl)) _ _
  | loadIndex | addIndex | loadGlyph =>
    cases hexec
    exact Machine.sameAt_setIndex (outside (by simp [Writes])) _
  | draw =>
    simp only [exec, Machine.draw_eq hmem hm.hasPixels] at hexec
    cases hexec
    exact Machine.sameAt_drawn x y n (outside (Or.inr rfl)) (outside rfl)
  | readDelay =>
    simp only [exec, Machine.readDelay_eq hm.delay_bounds] at hexec
    cases hexec
    exact Machine.sameAt_setReg (outside rfl) _
  | waitKey =>
    cases hexec
    exact Machine.sameAt_waitKey (outside rfl) _
  | setDelay =>
    cases hexec
    exact Machine.sameAt_setDelay (outside rfl) _
  | setSound =>
    cases hexec
    exact Machine.sameAt_setSound (outside rfl) _
  | storeDecimal =>
    simp only [exec, Machine.storeBytes_eq hmem] at hexec
    cases hexec
    exact Machine.sameAt_stored fun k hk => outside ⟨k, Nat.le_of_lt_succ hk, rfl⟩
  | storeRegs =>
    simp only [exec, Machine.storeBytes_eq hmem] at hexec
    cases hexec
    refine Machine.sameAt_stored fun k hk => outside ⟨k, ?_, rfl⟩
    rw [Machine.regsUpTo, List.length_take] at hk
    simp only []
    omega
  | loadRegs =>
    simp only [exec, Machine.bytesAt_eq hmem] at hexec
    cases hexec
    refine Machine.sameAt_setRegs fun r hr => outside ?_
    rw [Machine.bytes, List.length_map, List.length_range] at hr
    exact Nat.le_of_lt_succ hr

/-- An instruction draws a value if it is of the kind that does, asks for a redraw if it draws, and
does nothing else to its host. -/
theorem touch_eq (i : Instr) (h : Host) :
    i.touch h =
      { h with
        presenter.redrawPending := h.presenter.redrawPending || i.kind = .draw
        random.drawn := h.random.drawn + if i.kind = .random then 1 else 0 } := by
  obtain ⟨kind, x, y, n, kk, nnn⟩ := i
  cases kind <;> simp [touch, Presenter.requestRedraw, RandomSource.next]

end Instr

namespace Emulator

variable {e : Emulator}

/-- **Footprints.** A cycle that finds an instruction writes the places of its footprint at most,
whether or not it goes through. It draws one random value if the instruction is of the kind that
does and none otherwise, asks for a redraw iff the instruction draws a sprite, and changes neither
the keypad nor the mode nor anything else of the presenter. -/
theorem cycle_footprint (he : e.WellFormed) (hr : e.mode = .running) {i : Instr}
    (hi : Instr.ofWord? e.word = some i) :
    (∀ p, ¬ i.Writes e.machine p → e.machine.SameAt e.cycle.2.machine p) ∧
    e.cycle.2.host.random =
      { e.host.random with drawn := e.host.random.drawn + if i.kind = .random then 1 else 0 } ∧
    e.cycle.2.host.presenter =
      { e.host.presenter with redrawPending := e.host.presenter.redrawPending || i.kind = .draw } ∧
    e.cycle.2.host.keypad = e.host.keypad ∧ e.cycle.2.mode = e.mode := by
  have hc := cycle_cycled he hr
  generalize e.cycle = r at hc ⊢
  -- A call or a return that fails does nothing more than the advance before it.
  have hfailed : ∀ j : Instr, Instr.ofWord? e.word = some j → j.kind ≠ .random → j.kind ≠ .draw →
      (∀ p, ¬ i.Writes e.machine p → e.machine.SameAt (e.advance.trace j).machine p) ∧
      (e.advance.trace j).host.random =
        { e.host.random with drawn := e.host.random.drawn + if i.kind = .random then 1 else 0 } ∧
      (e.advance.trace j).host.presenter =
        { e.host.presenter with
          redrawPending := e.host.presenter.redrawPending || i.kind = .draw } ∧
      (e.advance.trace j).host.keypad = e.host.keypad ∧ (e.advance.trace j).mode = e.mode := by
    intro j hj hrandom hdraw
    rw [hi, Option.some.injEq] at hj
    subst hj
    rw [machine_trace, host_trace, mode_trace, if_neg hrandom, decide_eq_false hdraw, Bool.or_false]
    exact ⟨fun p _ => e.machine.sameAt_advance p, rfl, rfl, rfl, rfl⟩
  cases hc with
  | undecoded hw =>
    exact absurd (Instr.matches_of_ofWord? e.word_lt hi) (hw i.kind)
  | overflow j hj hk => exact hfailed j hj (by simp [hk]) (by simp [hk])
  | underflow j hj hk => exact hfailed j hj (by simp [hk]) (by simp [hk])
  | done j hj m _ _ hexec =>
    rw [hi, Option.some.injEq] at hj
    subst hj
    refine ⟨?_, ?_, ?_, ?_, mode_trace _ _⟩
    · intro p hp
      exact (e.machine.sameAt_advance p).trans (Instr.exec_sameAt he.machine.advance hexec hp)
    · rw [Instr.touch_eq]
    · rw [Instr.touch_eq]
    · rw [Instr.touch_eq]

/-- A block of two registers stored at the last address reaches the first one, and no other. -/
theorem cycle_footprint_around :
    let e : Emulator :=
      { machine := { Machine.fresh [0xF1, 0x55] with index := 0xFFF }, host := .still }
    e.WellFormed ∧ e.mode = .running ∧
      Instr.ofWord? e.word = some (.ofKind .storeRegs 0xF155) ∧
      (∀ a, a ≠ 0xFFF → a ≠ 0 → e.cycle.2.machine.memory.get a = e.machine.memory.get a) ∧
      (∀ r, e.cycle.2.machine.reg r = e.machine.reg r) ∧ e.cycle.2.host.random.drawn = 0 := by
  intro e
  have he : e.WellFormed :=
    ⟨(Machine.wellFormed_fresh (by decide)).setIndex (by decide), rfl⟩
  have hword : e.word = 0xF155 := by decide +kernel
  have hi : Instr.ofWord? e.word = some (.ofKind .storeRegs 0xF155) := by
    rw [hword]
    decide
  obtain ⟨hsame, hrandom, -⟩ := cycle_footprint he rfl hi
  refine ⟨he, rfl, hi, ?_, ?_, ?_⟩
  · intro a hlast hfirst
    refine hsame (.cell a) ?_
    rintro ⟨k, hk, rfl⟩
    have hk : k ≤ 1 := hk
    obtain rfl | rfl : k = 0 ∨ k = 1 := by omega
    · exact hlast rfl
    · exact hfirst rfl
  · intro r
    exact hsame (.reg r) id
  · exact congrArg RandomSource.drawn hrandom

end Emulator

end Chip8
