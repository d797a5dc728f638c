import Chip8.Keypad.Basic
import Chip8.Presenter.Basic

/-!
# The host side

What a few instructions reach outside the machine: the keypad, the presenter, and a source of
random bytes.
-/

namespace Chip8

/-- A sequence of random values, and how many of them are used up. -/
structure RandomSource where
  /-- The values, in the order in which they are drawn. -/
  values : Nat → Int
  /-- The number of values drawn. -/
  drawn : Nat := 0

/-- Draws the next value. -/
def RandomSource.next (r : RandomSource) : Int × RandomSource :=
  (r.values r.drawn, { r with drawn := r.drawn + 1 })

/-- The source that repeats a list. -/
def RandomSource.cycle (values : Array Int) : RandomSource where
  values n := values.getD (n % values.size) 0

/-- Scrambles the bits of a word. -/
def scramble (w : UInt64) : UInt64 :=
  let w := (w ^^^ (w >>> 30)) * 0xBF58476D1CE4E5B9
  let w := (w ^^^ (w >>> 27)) * 0x94D049BB133111EB
  w ^^^ (w >>> 31)

/-- The source that scrambles a counter, from a seed. Its values are bytes. -/
def RandomSource.ofSeed (seed : UInt64) : RandomSource where
  values n := ((scramble (seed + (UInt64.ofNat n + 1) * 0x9E3779B97F4A7C15)).toUInt8.toNat : Int)

/-- What a machine reaches of its host. -/
structure Host where
  /-- The keypad. -/
  keypad : Keypad
  /-- The presenter. -/
  presenter : Presenter
  /-- The random bytes. -/
  random : RandomSource

end Chip8
