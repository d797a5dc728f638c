import Chip8.CallStack

/-!
# Pushing and popping

* `CallStack.push_of_lt`, `CallStack.push_of_full`: when a push goes through, and what it keeps.
* `CallStack.pop_of_pos`, `CallStack.pop_of_empty`: the same of a pop.
-/

namespace Chip8.CallStack

/-- A stack with room takes an address. -/
theorem push_of_lt {s : CallStack} (h : s.depth < s.capacity) (a : Int) :
    ∃ t, s.push a = .ok t ∧ t.capacity = s.capacity ∧ t.depth = s.depth + 1 := by
  unfold push
  rw [dif_pos h]
  exact ⟨_, rfl, rfl, rfl⟩

theorem push_of_full {s : CallStack} (h : s.capacity ≤ s.depth) (a : Int) :
    s.push a = .error .overflow := by
  unfold push
  rw [dif_neg (by omega)]

/-- A stack with a live address gives one and keeps its slots. -/
theorem pop_of_pos {s : CallStack} (h : 0 < s.depth) :
    ∃ a t, s.pop = .ok (a, t) ∧ t.capacity = s.capacity ∧ t.slots = s.slots ∧
      t.depth + 1 = s.depth := by
  unfold pop
  rw [dif_pos h]
  exact ⟨_, _, rfl, rfl, rfl, Nat.sub_add_cancel h⟩

theorem pop_of_empty {s : CallStack} (h : s.depth = 0) : s.pop = .error .underflow := by
  unfold pop
  rw [dif_neg (by omega)]

theorem depth_of_live {s t : CallStack} {a : UInt16} (h : s.live = t.live ++ [a]) :
    s.depth = t.depth + 1 := by
  rw [← length_live s, h, List.length_append, length_live]
  rfl

end Chip8.CallStack
