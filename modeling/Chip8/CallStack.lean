/-!
# Call stacks

A fixed number of slots for return addresses, and the depth up to which they are live. Addresses
are kept to 16 bits. A slot keeps its value after it is popped.

* `CallStack.empty`: a new stack.
* `CallStack.push`, `CallStack.pop`: refuse a full stack and an empty one.
* `CallStack.live`: the live addresses, oldest first.
* `CallStack.live_of_push`, `CallStack.live_of_pop`: both operations work at the end of that list.
-/

namespace Chip8

/-- A bounded stack of return addresses. -/
structure CallStack where
  /-- How many addresses it can hold. A number below zero stands for none. -/
  capacity : Int
  /-- The slots, live ones first. -/
  slots : Array UInt16
  /-- The number of live slots. -/
  depth : Nat
  /-- There is a slot for each address that can be held. -/
  size_slots : slots.size = capacity.toNat
  /-- The live slots are among the slots. -/
  depth_le : depth ≤ slots.size
deriving DecidableEq

namespace CallStack

/-- Why an operation on a stack is refused. -/
inductive Error where
  /-- Every slot is live. -/
  | overflow
  /-- No slot is live. -/
  | underflow
deriving DecidableEq, Repr

/-- The text of an error. -/
def Error.message : Error → String
  | .overflow => "Stack overflow"
  | .underflow => "Stack underflow"

/-- A stack with no live slot. -/
def empty (capacity : Int) : CallStack where
  capacity := capacity
  slots := Array.replicate capacity.toNat 0
  depth := 0
  size_slots := by simp
  depth_le := by simp

/-- Makes an address, reduced to 16 bits, the newest live one. -/
def push (s : CallStack) (address : Int) : Except Error CallStack :=
  if h : s.depth < s.capacity then
    have := s.size_slots
    .ok { s with
      slots := s.slots.set s.depth (UInt16.ofInt address) (by omega)
      depth := s.depth + 1
      size_slots := by simpa using s.size_slots
      depth_le := by simp only [Array.size_set]; omega }
  else .error .overflow

/-- Takes the newest live address off. -/
def pop (s : CallStack) : Except Error (UInt16 × CallStack) :=
  if h : 0 < s.depth then
    have := s.depth_le
    have : s.depth - 1 < s.slots.size := by omega
    .ok (s.slots[s.depth - 1], { s with depth := s.depth - 1, depth_le := by omega })
  else .error .underflow

/-- The live addresses, oldest first. -/
def live (s : CallStack) : List UInt16 := s.slots.toList.take s.depth

/-! ## The operations at the end of the live list -/

@[simp] theorem length_live (s : CallStack) : s.live.length = s.depth := by
  have := s.depth_le
  simp only [live, List.length_take, Array.length_toList]
  omega

@[simp] theorem live_empty (capacity : Int) : (empty capacity).live = [] := by simp [live, empty]

theorem live_of_push {s t : CallStack} {a : Int} (h : s.push a = .ok t) :
    t.live = s.live ++ [UInt16.ofInt a] := by
  unfold push at h
  split at h
  · rename_i hlt
    cases h
    have := s.size_slots
    have hd : s.depth < s.slots.toList.length := by rw [Array.length_toList]; omega
    simp only [live, Array.toList_set]
    rw [List.take_add_one, List.take_set,
      List.set_eq_of_length_le (by rw [List.length_take]; omega)]
    simp [List.getElem?_set_self hd]
  · cases h

theorem live_of_pop {s t : CallStack} {a : UInt16} (h : s.pop = .ok (a, t)) :
    s.live = t.live ++ [a] := by
  unfold pop at h
  split at h
  · rename_i hpos
    have := s.depth_le
    simp only [Except.ok.injEq, Prod.mk.injEq] at h
    obtain ⟨rfl, rfl⟩ := h
    have hd : s.depth = s.depth - 1 + 1 := by omega
    have hlt : s.depth - 1 < s.slots.toList.length := by rw [Array.length_toList]; omega
    simp only [live]
    conv => lhs; rw [hd, List.take_add_one]
    rw [List.getElem?_eq_getElem hlt]
    simp
  · cases h

end CallStack

end Chip8
