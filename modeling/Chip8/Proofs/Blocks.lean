import Chip8.Proofs.Footprint

/-!
# Storing and loading registers

A block of memory goes around the end of it, but is never so long that it meets itself. So each byte
that is stored stands at an address of its own, registers that were stored are loaded as they were,
and registers that were loaded may be stored back.

* `Machine.get_putBytes_self`: each byte of a block stands at its address.
* `Machine.decimalDigits_eq`: the decimal digits of a byte.
* `Instr.exec_storeRegs`, `Instr.exec_loadRegs`, `Instr.exec_storeDecimal`: what the instructions
  that store and load do to each cell and each register.
* `Instr.exec_blocks`: all of them, and that stores and loads undo each other.
-/

namespace Chip8

namespace Machine

variable {m : Machine}

/-! ## Blocks of memory -/

/-- Numbers that are less than all of memory apart denote different addresses. -/
theorem address_add_ne {j k : Nat} (hj : j < memorySize) (hk : k < memorySize) (hne : j ≠ k)
    (a : Int) : address (a + j) ≠ address (a + k) := by
  unfold address memorySize at *
  omega

/-- Each byte of a block that is no longer than memory stands at its address. -/
theorem get_putBytes_self {memory : Memory} (hm : memory.size = memorySize) {a : Int}
    {bs : List UInt8} (hbs : bs.length ≤ memorySize) {k : Nat} (hk : k < bs.length) :
    (putBytes memory a bs).get (address (a + k)) = bs[k] := by
  induction bs generalizing memory a k with
  | nil => exact absurd hk (Nat.not_lt_zero k)
  | cons b bs ih =>
    rw [List.length_cons] at hbs hk
    cases k with
    | zero =>
      -- The rest of the block does not come around to its first address.
      have hrest : ∀ j : Nat, j < bs.length → address a ≠ address (a + 1 + j) := by
        intro j hj
        have hne := address_add_ne (j := 0) (k := j + 1) (by decide) (by omega) (by omega) a
        rwa [Int.natCast_zero, Int.add_zero, Int.natCast_succ, Int.add_comm (j : Int),
          ← Int.add_assoc] at hne
      have hrange : memory.InRange (address a) := by
        rw [Memory.InRange, hm]
        exact address_bounds a
      rw [Int.natCast_zero, Int.add_zero, putBytes, get_putBytes hrest, Memory.get_put,
        if_pos ⟨rfl, hrange⟩, List.getElem_cons_zero]
    | succ k =>
      have hput : (memory.put (address a) b).size = memorySize := by rw [Memory.size_put, hm]
      have hsum : a + (k + 1 : Nat) = a + 1 + k := by omega
      rw [putBytes, hsum, ih hput (by omega) (by omega), List.getElem_cons_succ]

theorem length_regsUpTo (m : Machine) (x : Fin 16) : (m.regsUpTo x).length = x.val + 1 := by
  rw [regsUpTo, List.length_take, Vector.length_toList]
  omega

theorem getElem_regsUpTo {x r : Fin 16} (hr : r.val < (m.regsUpTo x).length) :
    (m.regsUpTo x)[r.val] = m.reg r := by
  simp only [regsUpTo, List.getElem_take, Vector.getElem_toList, reg, Fin.getElem_fin]

theorem getElem?_bytes {a : Int} {n k : Nat} (hk : k < n) :
    (m.bytes a n)[k]? = some (m.byteAt (a + k)) := by
  rw [bytes, List.getElem?_map, List.getElem?_range hk, Option.map_some]

/-- A byte is told by three decimal digits. -/
theorem decimalDigits_eq (b : UInt8) :
    ∃ d2 d1 d0 : UInt8, decimalDigits b = [d2, d1, d0] ∧ d2 ≤ 9 ∧ d1 ≤ 9 ∧ d0 ≤ 9 ∧
      100 * d2.toNat + 10 * d1.toNat + d0.toNat = b.toNat := by
  have hb := b.toNat_lt
  have hnine : (9 : UInt8).toNat = 9 := rfl
  have hhundreds : (b / 100).toNat = b.toNat / 100 := UInt8.toNat_div b 100
  have htens : (b / 10 % 10).toNat = b.toNat / 10 % 10 := by
    rw [UInt8.toNat_mod, UInt8.toNat_div]
    rfl
  have hones : (b % 10).toNat = b.toNat % 10 := UInt8.toNat_mod b 10
  refine ⟨_, _, _, rfl, ?_, ?_, ?_, ?_⟩
  · rw [UInt8.le_iff_toNat_le, hhundreds, hnine]
    omega
  · rw [UInt8.le_iff_toNat_le, htens, hnine]
    omega
  · rw [UInt8.le_iff_toNat_le, hones, hnine]
    omega
  · rw [hhundreds, htens, hones]
    omega

end Machine

/-! ## Instructions -/

namespace Instr

variable {i : Instr} {m : Machine}

/-- Registers are stored behind the index, each at its own address. -/
theorem exec_storeRegs (hm : m.memory.size = memorySize) (hk : i.kind = .storeRegs) (h : Host) :
    ∃ memory, i.exec m h = .ok ({ m with memory }, h) ∧ memory.size = m.memory.size ∧
      (∀ r ≤ i.x, memory.get ((m.index + r.val) % 4096) = m.reg r) ∧
      ∀ a, (∀ r ≤ i.x, a ≠ (m.index + r.val) % 4096) → memory.get a = m.memory.get a := by
  have hlen := m.length_regsUpTo i.x
  have hfits : (m.regsUpTo i.x).length ≤ memorySize := by
    rw [hlen, memorySize]
    omega
  refine ⟨Machine.putBytes m.memory m.index (m.regsUpTo i.x), ?_, Machine.size_putBytes .., ?_, ?_⟩
  · simp only [exec, hk, Machine.storeBytes_eq hm]
    rfl
  · intro r hr
    have hr : r.val < (m.regsUpTo i.x).length := by omega
    exact (Machine.get_putBytes_self hm hfits hr).trans (Machine.getElem_regsUpTo hr)
  · intro a ha
    refine Machine.get_putBytes fun k hk => ?_
    rw [hlen] at hk
    exact ha ⟨k, by omega⟩ (Nat.le_of_lt_succ hk)

/-- Registers are loaded from behind the index, each from its own address. -/
theorem exec_loadRegs (hm : m.memory.size = memorySize) (hk : i.kind = .loadRegs) (h : Host) :
    ∃ v : Vector UInt8 16, i.exec m h = .ok ({ m with v }, h) ∧
      (∀ r ≤ i.x, v.get r = m.memory.get ((m.index + r.val) % 4096)) ∧
      ∀ r, i.x < r → v.get r = m.reg r := by
  refine ⟨(m.setRegs (m.bytes m.index (i.x.val + 1))).v, ?_, ?_, ?_⟩
  · simp only [exec, hk, Machine.bytesAt_eq hm]
    rfl
  · intro r hr
    have hloaded := Machine.getElem?_bytes (m := m) (a := m.index) (Nat.lt_succ_of_le hr)
    show (m.setRegs (m.bytes m.index (i.x.val + 1))).reg r = _
    rw [Machine.reg_setRegs, List.getD_eq_getElem?_getD, hloaded]
    rfl
  · intro r hr
    have hbehind : m.SameAt (m.setRegs (m.bytes m.index (i.x.val + 1))) (.reg r) := by
      refine Machine.sameAt_setRegs fun s hs he => ?_
      rw [Machine.bytes, List.length_map, List.length_range] at hs
      cases he
      omega
    exact hbehind

/-- The digits of a register are stored behind the index, hundreds first. -/
theorem exec_storeDecimal (hm : m.memory.size = memorySize) (hk : i.kind = .storeDecimal)
    (h : Host) :
    ∃ (memory : Memory) (d2 d1 d0 : UInt8),
      i.exec m h = .ok ({ m with memory }, h) ∧ memory.size = m.memory.size ∧
      memory.get (m.index % 4096) = d2 ∧ memory.get ((m.index + 1) % 4096) = d1 ∧
      memory.get ((m.index + 2) % 4096) = d0 ∧ d2 ≤ 9 ∧ d1 ≤ 9 ∧ d0 ≤ 9 ∧
      100 * d2.toNat + 10 * d1.toNat + d0.toNat = (m.reg i.x).toNat ∧
      ∀ a, a ≠ m.index % 4096 → a ≠ (m.index + 1) % 4096 → a ≠ (m.index + 2) % 4096 →
        memory.get a = m.memory.get a := by
  obtain ⟨d2, d1, d0, hdigits, h2, h1, h0, hsum⟩ := Machine.decimalDigits_eq (m.reg i.x)
  have hfits : [d2, d1, d0].length ≤ memorySize := show 3 ≤ memorySize by decide
  have hat : ∀ k (hk : k < [d2, d1, d0].length),
      (Machine.putBytes m.memory m.index [d2, d1, d0]).get ((m.index + k) % 4096) =
        [d2, d1, d0][k] := fun k hk => Machine.get_putBytes_self hm hfits hk
  refine ⟨Machine.putBytes m.memory m.index [d2, d1, d0], d2, d1, d0, ?_,
    Machine.size_putBytes .., ?_, hat 1 (by simp), hat 2 (by simp), h2, h1, h0, hsum, ?_⟩
  · simp only [exec, hk, Machine.storeBytes_eq hm, hdigits]
    rfl
  · have hfirst := hat 0 (Nat.succ_pos 2)
    rwa [Int.natCast_zero, Int.add_zero] at hfirst
  · intro a ha2 ha1 ha0
    refine Machine.get_putBytes fun k hk => ?_
    obtain rfl | rfl | rfl : k = 0 ∨ k = 1 ∨ k = 2 := by simp at hk; omega
    · rw [Int.natCast_zero, Int.add_zero]
      exact ha2
    · exact ha1
    · exact ha0

/-- **Blocks.** Registers are stored behind the index, around the end of memory, and nothing else
changes. Whatever becomes of the registers afterwards, they are loaded as they were stored, up to
the same one, and those behind it stay. Registers that were loaded and are stored back leave
everything as it was. The digits of a register are three cells that make up its number, and again
nothing else changes. -/
theorem exec_blocks (hm : m.WellFormed) (i : Instr) (h : Host) :
    (i.kind = .storeRegs →
      ∃ memory, i.exec m h = .ok ({ m with memory }, h) ∧ memory.size = m.memory.size ∧
        (∀ r ≤ i.x, memory.get ((m.index + r.val) % 4096) = m.reg r) ∧
        (∀ a, (∀ r ≤ i.x, a ≠ (m.index + r.val) % 4096) → memory.get a = m.memory.get a) ∧
        ∀ (j : Instr) (n : Machine) (g : Host), j.kind = .loadRegs → j.x = i.x →
          n.memory = memory → n.index = m.index →
          ∃ v : Vector UInt8 16, j.exec n g = .ok ({ n with v }, g) ∧
            (∀ r ≤ i.x, v.get r = m.reg r) ∧ ∀ r, i.x < r → v.get r = n.reg r) ∧
    (i.kind = .loadRegs →
      ∃ v : Vector UInt8 16, i.exec m h = .ok ({ m with v }, h) ∧
        ∀ (j : Instr) (g : Host), j.kind = .storeRegs → j.x = i.x →
          j.exec { m with v } g = .ok ({ m with v }, g)) ∧
    (i.kind = .storeDecimal →
      ∃ (memory : Memory) (d2 d1 d0 : UInt8),
        i.exec m h = .ok ({ m with memory }, h) ∧ memory.size = m.memory.size ∧
        memory.get (m.index % 4096) = d2 ∧ memory.get ((m.index + 1) % 4096) = d1 ∧
        memory.get ((m.index + 2) % 4096) = d0 ∧ d2 ≤ 9 ∧ d1 ≤ 9 ∧ d0 ≤ 9 ∧
        100 * d2.toNat + 10 * d1.toNat + d0.toNat = (m.reg i.x).toNat ∧
        ∀ a, a ≠ m.index % 4096 → a ≠ (m.index + 1) % 4096 → a ≠ (m.index + 2) % 4096 →
          memory.get a = m.memory.get a) := by
  have hmem := hm.memory_size
  refine ⟨fun hk => ?_, fun hk => ?_, fun hk => exec_storeDecimal hmem hk h⟩
  · obtain ⟨memory, hexec, hsize, hstored, hother⟩ := exec_storeRegs hmem hk h
    refine ⟨memory, hexec, hsize, hstored, hother, ?_⟩
    rintro j n g hj hx rfl hindex
    obtain ⟨v, hload, hloaded, hbehind⟩ := exec_loadRegs (hsize.trans hmem) hj g
    rw [hx, hindex] at hloaded
    rw [hx] at hbehind
    refine ⟨v, hload, fun r hr => ?_, hbehind⟩
    rw [hloaded r hr, hstored r hr]
  · obtain ⟨v, hexec, hloaded, -⟩ := exec_loadRegs hmem hk h
    refine ⟨v, hexec, fun j g hj hx => ?_⟩
    obtain ⟨memory, hstore, hsize, hstored, hother⟩ :=
      exec_storeRegs (m := { m with v }) hmem hj g
    rw [hx] at hstored hother
    -- Each cell of the block gets the byte that it had; the other cells are not stored to.
    have hmemory : memory = m.memory := by
      refine Memory.eq_of_get hsize fun a _ => ?_
      by_cases ha : ∃ r ≤ i.x, a = (m.index + r.val) % 4096
      · obtain ⟨r, hr, rfl⟩ := ha
        exact (hstored r hr).trans (hloaded r hr)
      · exact hother a fun r hr he => ha ⟨r, hr, he⟩
    rw [hstore, hmemory]

/-- A block behind an index beyond memory, on both sides of the end of it. -/
theorem exec_blocks_around :
    let m := ({ Machine.booted with index := 0x1FFE } : Machine).setReg 3 207
    let store := Instr.ofKind .storeRegs 0xF355
    let load := Instr.ofKind .loadRegs 0xF365
    let digits := Instr.ofKind .storeDecimal 0xF333
    m.WellFormed ∧ store.kind = .storeRegs ∧ load.kind = .loadRegs ∧
      digits.kind = .storeDecimal ∧ load.x = store.x ∧
      (∃ memory, store.exec m .still = .ok ({ m with memory }, .still) ∧ memory.get 1 = 207 ∧
        ∃ v : Vector UInt8 16,
          load.exec { Machine.booted with memory, index := 0x1FFE } .still =
            .ok ({ Machine.booted with memory, index := 0x1FFE, v }, .still) ∧ v.get 3 = 207) ∧
      (∃ v : Vector UInt8 16, load.exec m .still = .ok ({ m with v }, .still) ∧
        store.exec { m with v } .still = .ok ({ m with v }, .still)) ∧
      ∃ (memory : Memory) (d2 d1 d0 : UInt8),
        digits.exec m .still = .ok ({ m with memory }, .still) ∧ memory.get 0xFFE = d2 ∧
        memory.get 0xFFF = d1 ∧ memory.get 0 = d0 ∧
        100 * d2.toNat + 10 * d1.toNat + d0.toNat = 207 := by
  intro m store load digits
  have hm : m.WellFormed := (Machine.wellFormed_booted.setIndex (by decide)).setReg _ _
  refine ⟨hm, rfl, rfl, rfl, rfl, ?_, ?_, ?_⟩
  · obtain ⟨memory, hstore, -, hstored, -, hback⟩ := (exec_blocks hm store .still).1 rfl
    obtain ⟨v, hload, hloaded, -⟩ :=
      hback load { Machine.booted with memory, index := 0x1FFE } .still rfl rfl rfl rfl
    exact ⟨memory, hstore, hstored 3 (by decide), v, hload, hloaded 3 (by decide)⟩
  · obtain ⟨v, hload, hback⟩ := (exec_blocks hm load .still).2.1 rfl
    exact ⟨v, hload, hback store .still rfl rfl⟩
  · obtain ⟨memory, d2, d1, d0, hexec, -, hfirst, hsecond, hthird, -, -, -, hsum, -⟩ :=
      (exec_blocks hm digits .still).2.2 rfl
    exact ⟨memory, d2, d1, d0, hexec, hfirst, hsecond, hthird, hsum⟩

end Instr

end Chip8
