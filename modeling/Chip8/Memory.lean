import Chip8.Text.Hex

/-!
# Memory banks

A bank is a row of byte cells, addressed by integers. Single reads and writes refuse every address
outside the bank. Block operations test the address of their last byte only; a block that starts
below zero is then placed by the rule for ranges, in `Memory.position`. A bank can have any number
of cells: how many of them a host has room for is the host's matter.

* `Memory.ofSize`: a new bank.
* `Memory.read`, `Memory.write`: one cell, with a range check.
* `Memory.readBlock`, `Memory.writeBlock`: several cells.
* `Memory.size_put`, `Memory.get_put`: a store changes one cell and keeps the size.
-/

namespace Chip8

/-- A bank of byte cells. -/
structure Memory where
  /-- The cells, from address 0. -/
  cells : Array UInt8
deriving DecidableEq

namespace Memory

/-- Why an operation on a bank is refused. -/
inductive Error where
  /-- A bank cannot have fewer than no cells. -/
  | negativeSize (size : Int)
  /-- The address is not one of the bank's. -/
  | outOfRange (address : Int)
  /-- The value does not fit in a cell. -/
  | notAByte (value : Int)
  /-- The block and the range that it should fill differ in length. -/
  | lengthMismatch
deriving DecidableEq, Repr

/-- The text of an error. -/
def Error.message : Error → String
  | .negativeSize size => s!"A memory bank cannot have {size} cells"
  | .outOfRange address => "Memory access out of range at 0x" ++ Hex.padded 4 address
  | .notAByte value => s!"{value} is not a byte"
  | .lengthMismatch => "The block does not fill the range"

/-- A bank of cells that all hold zero. -/
def zeros (size : Nat) : Memory := ⟨Array.replicate size 0⟩

/-- A bank of `size` cells that all hold zero, for a size that is not negative. -/
def ofSize (size : Int) : Except Error Memory :=
  if size < 0 then .error (.negativeSize size) else .ok (zeros size.toNat)

/-- The number of cells. -/
def size (m : Memory) : Nat := m.cells.size

/-- The address names a cell of the bank. -/
def InRange (m : Memory) (a : Int) : Prop := 0 ≤ a ∧ a < m.size

instance (m : Memory) (a : Int) : Decidable (m.InRange a) :=
  inferInstanceAs (Decidable (0 ≤ a ∧ a < m.size))

/-- A block of `n` bytes at address `a` lies inside the bank. -/
def Fits (m : Memory) (a : Int) (n : Int) : Prop := 0 ≤ a ∧ a + n ≤ m.size

instance (m : Memory) (a n : Int) : Decidable (m.Fits a n) :=
  inferInstanceAs (Decidable (0 ≤ a ∧ a + n ≤ m.size))

/-! ## Single cells -/

/-- The byte at an address, or zero outside the bank. -/
def get (m : Memory) (a : Int) : UInt8 := if 0 ≤ a then m.cells.getD a.toNat 0 else 0

/-- The bank with one cell changed. An address outside the bank changes nothing. -/
def put (m : Memory) (a : Int) (b : UInt8) : Memory :=
  if 0 ≤ a then ⟨m.cells.setIfInBounds a.toNat b⟩ else m

/-- The byte at an address of the bank. -/
def read (m : Memory) (a : Int) : Except Error UInt8 :=
  if m.InRange a then .ok (m.get a) else .error (.outOfRange a)

/-- Stores a byte at an address of the bank. -/
def store (m : Memory) (a : Int) (b : UInt8) : Except Error Memory :=
  if m.InRange a then .ok (m.put a b) else .error (.outOfRange a)

/-- Stores a value, which must fit in a byte, at an address of the bank. Of two faults the address
is reported. -/
def write (m : Memory) (a : Int) (value : Int) : Except Error Memory :=
  if ¬ m.InRange a then .error (.outOfRange a)
  else if 0 ≤ value ∧ value ≤ 255 then .ok (m.put a (UInt8.ofInt value))
  else .error (.notAByte value)

/-! ## Blocks -/

/-- The place of one end of a range: a negative end counts from the end of the bank, and what is
still outside is moved to the nearer border. -/
def position (m : Memory) (a : Int) : Nat :=
  if a < 0 then (a + m.size).toNat else min a.toNat m.size

/-- The bytes of the range from `a` up to `a + n`. Only the last address is tested. -/
def readBlock (m : Memory) (a n : Int) : Except Error (List UInt8) :=
  if m.InRange (a + n - 1) then .ok (m.cells.extract (m.position a) (m.position (a + n))).toList
  else .error (.outOfRange (a + n - 1))

/-- The bank with a block stored from address `a` on. -/
def putBlock (m : Memory) (a : Int) : List UInt8 → Memory
  | [] => m
  | b :: bs => (m.put a b).putBlock (a + 1) bs

/-- Stores a block from address `a` on. Only the last address is tested; the range must then be as
long as the block. -/
def writeBlock (m : Memory) (a : Int) (block : List UInt8) : Except Error Memory :=
  let last := a + block.length - 1
  if ¬ m.InRange last then .error (.outOfRange last)
  else if m.position (a + block.length) - m.position a = block.length then .ok (m.putBlock a block)
  else .error .lengthMismatch

/-- The bank with every cell zero. -/
def clear (m : Memory) : Memory := zeros m.size

/-! ## What the operations do to size and cells -/

@[simp] theorem size_zeros (n : Nat) : (zeros n).size = n := by simp [zeros, size]

theorem size_of_ofSize {size : Int} {m : Memory} (h : ofSize size = .ok m) : m.size = size := by
  unfold ofSize at h
  split at h
  · cases h
  · cases h
    rw [size_zeros]
    omega

@[simp] theorem size_clear (m : Memory) : m.clear.size = m.size := by simp [clear]

@[simp] theorem size_put (m : Memory) (a : Int) (b : UInt8) : (m.put a b).size = m.size := by
  unfold put size
  split <;> simp

@[simp] theorem size_putBlock (m : Memory) (a : Int) (bs : List UInt8) :
    (m.putBlock a bs).size = m.size := by
  induction bs generalizing m a with
  | nil => rfl
  | cons b bs ih => rw [putBlock, ih, size_put]

theorem size_of_write {m n : Memory} {a value : Int} (h : m.write a value = .ok n) :
    n.size = m.size := by
  unfold write at h
  split at h
  · cases h
  · split at h
    · cases h
      exact size_put m a _
    · cases h

@[simp] theorem get_zeros (n : Nat) (a : Int) : (zeros n).get a = 0 := by
  simp only [get, zeros, Array.getD_eq_getD_getElem?, Array.getElem?_replicate]
  split <;> (try split) <;> rfl

/-- A store is seen at its own address, if that is in the bank, and nowhere else. -/
theorem get_put (m : Memory) (a c : Int) (b : UInt8) :
    (m.put a b).get c = if c = a ∧ m.InRange a then b else m.get c := by
  simp only [get, put, InRange, size]
  by_cases ha : 0 ≤ a <;> by_cases hc : 0 ≤ c <;>
    simp only [ha, hc, ↓reduceIte, Array.getD_eq_getD_getElem?, Array.getElem?_setIfInBounds]
  all_goals grind

end Memory

end Chip8
