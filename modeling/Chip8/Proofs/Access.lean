import Chip8.Machine.Exec
import Chip8.Proofs.Screen

/-!
# What a machine reads, stores and draws

Addresses are reduced to the size of memory before memory sees them, so a machine whose memory has
its full size is refused no access, and on a screen with pixels no sprite is refused. Each operation
on memory and screen is then a total function.

* `Machine.byteAt`, `Machine.wordAt`: the byte and the word that a number points at.
* `Machine.getElem?_address`, `Machine.wordAt_eq`: both with the reduction modulo 4096 written out.
* `Machine.bytesAt_eq`, `Machine.storeBytes_eq`, `Machine.draw_eq`: reading, storing and drawing.
* `Machine.fetch_eq`, `Machine.readDelay_eq`: fetching a word and reading the delay timer.
* `Machine.address_add`, `Machine.address_word`: reduction goes through sums and 16-bit words.
-/

namespace Chip8.Machine

/-- The byte at the address that a number denotes. -/
def byteAt (m : Machine) (a : Int) : UInt8 := m.memory.get (address a)

/-- The word at the address that a number denotes, first byte high. -/
def wordAt (m : Machine) (a : Int) : Nat :=
  (m.byteAt a).toNat * 0x100 + (m.byteAt (a + 1)).toNat

/-- The `n` bytes from an address on, around the end of memory. -/
def bytes (m : Machine) (a : Int) (n : Nat) : List UInt8 :=
  (List.range n).map fun (k : Nat) => m.byteAt (a + k)

/-- A memory with bytes stored from an address on, around its end. -/
def putBytes (memory : Memory) (a : Int) : List UInt8 → Memory
  | [] => memory
  | b :: bs => putBytes (memory.put (address a) b) (a + 1) bs

/-- The machine after bytes are stored from an address on. -/
def stored (m : Machine) (a : Int) (bs : List UInt8) : Machine :=
  { m with memory := putBytes m.memory a bs }

/-- The points that a sprite of height `n` at the place that two registers name flips. -/
def sprite (m : Machine) (x y : Fin 16) (n : Nat) : List (Int × Int) :=
  spritePixels (m.reg x).toNat (m.reg y).toNat (m.bytes m.index n)

/-- The machine after a sprite is drawn. -/
def drawn (m : Machine) (x y : Fin 16) (n : Nat) : Machine :=
  { m with screen := m.screen.flips (m.sprite x y n) }.setReg flagRegister
    (if (m.screen.hits (m.sprite x y n)).contains true then 1 else 0)

variable {m : Machine}

/-! ## Addresses -/

theorem address_bounds (a : Int) : 0 ≤ address a ∧ address a < memorySize := by
  unfold address memorySize
  omega

theorem address_inRange (hm : m.memory.size = memorySize) (a : Int) :
    m.memory.InRange (address a) := by
  rw [Memory.InRange, hm]
  exact address_bounds a

/-- Numbers that denote one address do so after a sum too. -/
theorem address_add {a b : Int} (h : address a = address b) (k : Int) :
    address (a + k) = address (b + k) := by
  unfold address memorySize at *
  omega

/-- A number denotes the address that its low 16 bits denote. -/
theorem address_word (a : Int) : address (word a) = address a := by
  unfold address word memorySize
  omega

theorem word_bounds (a : Int) : 0 ≤ word a ∧ word a < 0x10000 := by
  unfold word
  omega

theorem wordAt_lt (m : Machine) (a : Int) : m.wordAt a < 0x10000 := by
  have h1 := (m.byteAt a).toNat_lt
  have h2 := (m.byteAt (a + 1)).toNat_lt
  unfold wordAt
  omega

/-! ## Memory -/

/-- The byte that a number points at is the cell at the number modulo 4096. -/
theorem getElem?_address (hm : m.memory.size = memorySize) (a : Int) :
    m.memory.cells[(a % 4096).toNat]? = some (m.byteAt a) := by
  have hcell : (a % 4096).toNat < m.memory.cells.size := by
    rw [Memory.size, memorySize] at hm
    omega
  rw [byteAt, Memory.get, if_pos (address_bounds a).1, Array.getElem?_eq_getElem hcell,
    Option.some.injEq]
  exact Array.getElem_eq_getD 0

theorem wordAt_eq (m : Machine) (a : Int) :
    m.wordAt a =
      256 * (m.memory.get (a % 4096)).toNat + (m.memory.get ((a + 1) % 4096)).toNat := by
  rw [wordAt, Nat.mul_comm]
  rfl

theorem read_address (hm : m.memory.size = memorySize) (a : Int) :
    m.memory.read (address a) = .ok (m.byteAt a) := by
  rw [Memory.read, if_pos (address_inRange hm a)]
  rfl

theorem fetch_eq (hm : m.memory.size = memorySize) :
    m.fetch = .ok { m with opcode := m.wordAt m.ip } := by
  rw [fetch, read_address hm, read_address hm]
  simp only [wordAt, Int.natCast_add, Int.natCast_mul]
  rfl

theorem bytesAt_eq (hm : m.memory.size = memorySize) (a : Int) (n : Nat) :
    m.bytesAt a n = .ok (m.bytes a n) := by
  have hread : (fun (k : Nat) => m.memory.read (address (a + k))) =
      fun (k : Nat) => pure (m.byteAt (a + k)) := by
    funext k
    exact read_address hm _
  rw [bytesAt, hread, List.mapM_pure]
  rfl

theorem storeBytes_eq (hm : m.memory.size = memorySize) (a : Int) (bs : List UInt8) :
    m.storeBytes a bs = .ok (m.stored a bs) := by
  induction bs generalizing m a with
  | nil => rfl
  | cons b bs ih =>
    have hm' : (m.memory.put (address a) b).size = memorySize := by rw [Memory.size_put, hm]
    rw [storeBytes, Memory.store, if_pos (address_inRange hm a)]
    exact ih (m := { m with memory := m.memory.put (address a) b }) hm' (a + 1)

@[simp] theorem size_putBytes (memory : Memory) (a : Int) (bs : List UInt8) :
    (putBytes memory a bs).size = memory.size := by
  induction bs generalizing memory a with
  | nil => rfl
  | cons b bs ih => rw [putBytes, ih, Memory.size_put]

theorem putBytes_congr {a b : Int} (h : address a = address b) (memory : Memory)
    (bs : List UInt8) : putBytes memory a bs = putBytes memory b bs := by
  induction bs generalizing memory a b with
  | nil => rfl
  | cons c bs ih => rw [putBytes, putBytes, h, ih (address_add h 1)]

/-! ## Screen and timers -/

theorem draw_eq (hm : m.memory.size = memorySize) (hs : m.screen.HasPixels) (x y : Fin 16)
    (n : Nat) :
    m.draw x y n = .ok (m.drawn x y n) := by
  rw [draw, bytesAt_eq hm]
  simp only [Screen.xorPixels_eq hs]
  rfl

theorem readDelay_eq (h : 0 ≤ m.delay ∧ m.delay < 0x100) (x : Fin 16) :
    m.readDelay x = .ok (m.setReg x (UInt8.ofInt m.delay)) := by
  rw [readDelay, if_pos (by omega)]

end Chip8.Machine
