import Chip8.Memory

/-!
# Blocks of memory

What a store and the store of a block do to the row of cells.

* `Memory.eq_of_get`: a bank is told by its size and the bytes at its addresses.
* `Memory.toList_put`: a store changes one cell of the row.
* `Memory.toList_putBlock`: a block that fits takes the place of as many cells.
* `Memory.writeBlock_of_fits`: a block that fits behind the first address is not refused.
-/

namespace Chip8.Memory

/-- The byte at an address of the bank is its cell. -/
theorem get_natCast (m : Memory) {i : Nat} (hi : i < m.cells.size) : m.get i = m.cells[i] := by
  rw [get, if_pos (Int.natCast_nonneg i), Int.toNat_natCast, Array.getD_eq_getD_getElem?,
    Array.getElem?_eq_getElem hi, Option.getD_some]

/-- Banks of one size with the same byte at each of their addresses are the same. -/
theorem eq_of_get {m n : Memory} (hsize : m.size = n.size)
    (h : ∀ a, m.InRange a → m.get a = n.get a) : m = n := by
  obtain ⟨cells⟩ := m
  obtain ⟨cells'⟩ := n
  have hcells : cells = cells' := by
    refine Array.ext hsize fun k hk hk' => ?_
    simpa [get, hk, hk'] using h k ⟨Int.natCast_nonneg k, Int.ofNat_lt.2 hk⟩
  rw [hcells]

theorem toList_put (m : Memory) (a : Nat) (b : UInt8) :
    (m.put a b).cells.toList = m.cells.toList.set a b := by
  rw [put, if_pos (Int.natCast_nonneg a), Int.toNat_natCast, Array.toList_setIfInBounds]

theorem length_toList (m : Memory) : m.cells.toList.length = m.size := Array.length_toList

/-- A block that fits takes the place of as many cells of the row. -/
theorem toList_putBlock {m : Memory} {a : Nat} {bs : List UInt8} (h : a + bs.length ≤ m.size) :
    (m.putBlock a bs).cells.toList =
      m.cells.toList.take a ++ bs ++ m.cells.toList.drop (a + bs.length) := by
  induction bs generalizing m a with
  | nil => simp [putBlock]
  | cons b bs ih =>
    rw [List.length_cons] at h ⊢
    have hlen : a < m.cells.toList.length := by
      rw [length_toList]
      omega
    have htake : (m.cells.toList.set a b).take (a + 1) = m.cells.toList.take a ++ [b] := by
      rw [List.take_add_one, List.getElem?_set_self hlen, List.take_set_of_le (Nat.le_refl a)]
      rfl
    have hdrop : (m.cells.toList.set a b).drop (a + 1 + bs.length) =
        m.cells.toList.drop (a + (bs.length + 1)) := by
      rw [List.drop_set_of_lt (by omega)]
      congr 1
      omega
    have hnext := ih (m := m.put a b) (a := a + 1) (by rw [size_put]; omega)
    rw [toList_put, htake, hdrop] at hnext
    rw [putBlock, ← Int.natCast_one, ← Int.natCast_add, hnext]
    simp only [List.append_assoc, List.cons_append, List.nil_append]

/-- A block that lies inside the bank, and behind its first address, is stored as a whole. Only an
empty block at the first address is refused, for the address before it is tested. -/
theorem writeBlock_of_fits {m : Memory} {a : Int} {bs : List UInt8} (ha : 0 < a)
    (h : m.Fits a bs.length) : m.writeBlock a bs = .ok (m.putBlock a bs) := by
  obtain ⟨-, hend⟩ := h
  have hlast : m.InRange (a + bs.length - 1) := ⟨by omega, by omega⟩
  have hfill : m.position (a + bs.length) - m.position a = bs.length := by
    unfold position
    rw [if_neg (by omega), if_neg (by omega)]
    omega
  rw [writeBlock]
  simp only [hlast, hfill, not_true_eq_false, ↓reduceIte]

end Chip8.Memory
