import Chip8.Proofs.Loading

/-!
# Arithmetic with a flag

Five kinds of instruction compute a byte and put into the flag register what the byte cannot hold: a
carry, whether nothing was borrowed, or the bit that is shifted out. The flag is written last, so it
stands in the flag register also where that is an operand or the destination.

* `Kind.IsArithmetic`: the five kinds.
* `Kind.flagOf`, `Kind.Exact`: the flag, and what byte and flag amount to together.
* `Instr.exec_arithmetic`: the five kinds write an exact byte and then their flag.
* `Emulator.cycle_arithmetic`: what a cycle leaves in the registers.
-/

namespace Chip8

namespace Kind

/-- The kinds that write the flag register behind their destination. Drawing writes it too, but has
no destination. -/
def IsArithmetic : Kind → Prop
  | .add | .sub | .shiftRight | .subFrom | .shiftLeft => True
  | _ => False

/-- The flag for the numbers `a` and `b` in the first and the second register. -/
def flagOf (a b : Int) : Kind → Int
  | .add => if 255 < a + b then 1 else 0
  | .sub => if b ≤ a then 1 else 0
  | .shiftRight => a % 2
  | .subFrom => if a ≤ b then 1 else 0
  | .shiftLeft => a / 128
  | _ => 0

/-- A byte `r` and a flag `f` amount to the exact outcome for the numbers `a` and `b`. -/
def Exact (a b r f : Int) : Kind → Prop
  | .add => r + 256 * f = a + b
  | .sub => r = a - b + 256 * (1 - f)
  | .shiftRight => 2 * r + f = a
  | .subFrom => r = b - a + 256 * (1 - f)
  | .shiftLeft => r + 256 * f = 2 * a
  | _ => False

end Kind

namespace Instr

variable {i : Instr} {m : Machine}

/-- An arithmetic instruction writes a byte and then its flag. Byte and flag are exact. -/
theorem exec_arithmetic (hk : i.kind.IsArithmetic) (m : Machine) (h : Host) :
    ∃ (r : UInt8) (flag : Bool), i.exec m h = .ok (m.setFlagged i.x r flag, h) ∧
      (if flag then 1 else 0) = i.kind.flagOf (m.reg i.x).toNat (m.reg i.y).toNat ∧
      i.kind.Exact (m.reg i.x).toNat (m.reg i.y).toNat r.toNat (if flag then 1 else 0) := by
  obtain ⟨k, x, y, n, kk, nnn⟩ := i
  have ha := (m.reg x).toNat_lt
  have hb := (m.reg y).toNat_lt
  cases k with
  | add =>
    have hsum := UInt8.toNat_add (m.reg x) (m.reg y)
    refine ⟨_, _, rfl, ?_, ?_⟩ <;> simp only [Kind.flagOf, Kind.Exact, decide_eq_true_eq] <;>
      omega
  | sub =>
    have hdiff := UInt8.toNat_sub (m.reg x) (m.reg y)
    refine ⟨_, _, rfl, ?_, ?_⟩ <;>
      simp only [Kind.flagOf, Kind.Exact, decide_eq_true_eq, UInt8.le_iff_toNat_le] <;> omega
  | shiftRight =>
    have hhalf : (m.reg x >>> 1).toNat = (m.reg x).toNat / 2 := by
      rw [UInt8.toNat_shiftRight]
      rfl
    have hodd : (m.reg x % 2 == 1) = true ↔ (m.reg x).toNat % 2 = 1 := by
      rw [beq_iff_eq, ← UInt8.toNat_inj, UInt8.toNat_mod]
      rfl
    refine ⟨_, _, rfl, ?_, ?_⟩ <;> simp only [Kind.flagOf, Kind.Exact, hhalf, hodd] <;> omega
  | subFrom =>
    have hdiff := UInt8.toNat_sub (m.reg y) (m.reg x)
    refine ⟨_, _, rfl, ?_, ?_⟩ <;>
      simp only [Kind.flagOf, Kind.Exact, decide_eq_true_eq, UInt8.le_iff_toNat_le] <;> omega
  | shiftLeft =>
    have hdouble : (m.reg x <<< 1).toNat = 2 * (m.reg x).toNat % 256 := by
      rw [UInt8.toNat_shiftLeft, Nat.shiftLeft_eq, Nat.mul_comm]
      rfl
    have hhigh : decide (128 ≤ m.reg x) = true ↔ 128 ≤ (m.reg x).toNat := by
      rw [decide_eq_true_eq, UInt8.le_iff_toNat_le]
      rfl
    refine ⟨_, _, rfl, ?_, ?_⟩ <;> simp only [Kind.flagOf, Kind.Exact, hdouble, hhigh] <;> omega
  | _ => exact hk.elim

end Instr

namespace Emulator

variable {e : Emulator}

/-- **Arithmetic.** A cycle with an arithmetic instruction goes through and leaves the flag in the
flag register, whichever registers the operands are. If the destination is another register, the
byte left in it makes up the exact outcome together with the flag. No other register changes. -/
theorem cycle_arithmetic (he : e.WellFormed) (hr : e.mode = .running) {i : Instr}
    (hi : Instr.ofWord? e.word = some i) (hk : i.kind.IsArithmetic) :
    let a : Int := (e.machine.reg i.x).toNat
    let b : Int := (e.machine.reg i.y).toNat
    let after := e.cycle.2.machine
    let f : Int := (after.reg flagRegister).toNat
    let r : Int := (after.reg i.x).toNat
    e.cycle.1 = .ok () ∧ f = i.kind.flagOf a b ∧ (f = 0 ∨ f = 1) ∧
      (i.x ≠ flagRegister → i.kind.Exact a b r f ∧ 0 ≤ r ∧ r ≤ 255) ∧
      ∀ s, s ≠ i.x → s ≠ flagRegister → after.reg s = e.machine.reg s := by
  intro a b after f r
  obtain ⟨byte, flag, hexec, hflag, hexact⟩ := Instr.exec_arithmetic hk e.machine.advance e.host
  have hcycle : e.cycle = (.ok (), { e.advance.trace i with
      machine := e.machine.advance.setFlagged i.x byte flag, host := e.host }) := by
    rw [cycle_decoded he hr hi, hexec]
  have hreg : ∀ s, after.reg s =
      if flagRegister = s then (if flag then 1 else 0)
      else if i.x = s then byte else e.machine.reg s := by
    intro s
    simp only [after, hcycle]
    exact Machine.reg_setFlagged _ _ _ _ _
  have hf : f = if flag then 1 else 0 := by
    simp only [f, hreg, if_pos]
    cases flag <;> rfl
  refine ⟨by rw [hcycle], hf.trans hflag, ?_, ?_, ?_⟩
  · rw [hf]
    cases flag with
    | false => exact .inl rfl
    | true => exact .inr rfl
  · intro hx
    have hr : after.reg i.x = byte := by rw [hreg, if_neg hx.symm, if_pos rfl]
    have hbyte := byte.toNat_lt
    refine ⟨?_, ?_, ?_⟩
    · simp only [r, hr, hf]
      exact hexact
    · simp only [r, hr]
      omega
    · simp only [r, hr]
      omega
  · intro s hs hflagged
    rw [hreg, if_neg hflagged.symm, if_neg hs.symm]

/-- A difference below zero, with the flag register for an operand. -/
theorem cycle_arithmetic_borrow :
    let v : Vector UInt8 16 := (Vector.replicate 16 0).set 1 200 |>.set 15 100
    let e : Emulator := { machine := { Machine.fresh [0x81, 0xF7] with v }, host := .still }
    e.WellFormed ∧ e.mode = .running ∧
      Instr.ofWord? e.word = some (.ofKind .subFrom 0x81F7) ∧
      (e.cycle.2.machine.reg 1).toNat = 156 ∧ (e.cycle.2.machine.reg flagRegister).toNat = 0 := by
  intro v e
  have he : e.WellFormed := ⟨(Machine.wellFormed_fresh (by decide)).setV v, rfl⟩
  have hword : e.word = 0x81F7 := by decide +kernel
  have hi : Instr.ofWord? e.word = some (.ofKind .subFrom 0x81F7) := by
    rw [hword]
    decide
  obtain ⟨-, hflag, -, hbyte, -⟩ := cycle_arithmetic he rfl hi trivial
  have hzero : ((e.cycle.2.machine.reg flagRegister).toNat : Int) = 0 := hflag
  obtain ⟨hexact, -, -⟩ := hbyte (by decide)
  rw [hzero] at hexact
  have hexact : ((e.cycle.2.machine.reg 1).toNat : Int) = 100 - 200 + 256 * (1 - 0) := hexact
  exact ⟨he, rfl, hi, by omega, by omega⟩

end Emulator

end Chip8
