/-!
# The pace of a session

A pace says how long a session waits between two timer ticks, two refreshes, two reports and two
instructions. Times are of any type with a sum and an order, so the same session runs on machine
floats and on exact fractions.

* `Pace.atSpeed?`: the pace of a clock that counts seconds in floats.
* `Pace.exact`: the pace of an exact clock.
* `Pace.ticksDue`: the timer ticks that are due at a time, and when the next one is.
-/

namespace Chip8

/-- How often the timers tick in a second. -/
def timerFrequency : Nat := 60

/-- How often the screen is refreshed in a second, at most. -/
def displayFrequency : Nat := 60

/-- The instructions in a second, if no speed is asked for. -/
def standardSpeed : Int := 700

/-- The waits of a session, on a clock with times in `τ`. -/
structure Pace (τ : Type) where
  /-- The wait between two timer ticks. -/
  timer : τ
  /-- The least wait between two refreshes. -/
  display : τ
  /-- The least wait between two reports. -/
  report : τ
  /-- The least wait between two instructions, if there is one. -/
  core : Option τ
  /-- No more ticks than this are due between two times. -/
  mostTicks : τ → τ → Nat

namespace Pace

/-- The pace of a clock that counts seconds in floats, for a given wait between two instructions.
A rounded sum of a time and an interval moves on by half the interval at least. -/
def ofCore (core : Option Float) : Pace Float where
  timer := 1.0 / Float.ofNat timerFrequency
  display := 1.0 / Float.ofNat displayFrequency
  report := 1.0
  core := core
  mostTicks next now := ((now - next) * Float.ofNat (2 * timerFrequency)).toUInt64.toNat + 2

/-- The pace of a clock that counts seconds in floats, for a speed in instructions a second. A speed
of 0 or less, or none, is no limit. There is no pace for a speed that no float can hold. -/
def atSpeed? (speed : Option Int) : Option (Pace Float) :=
  match speed.getD 0 with
  | .ofNat (n + 1) =>
    let frequency := Float.ofNat (n + 1)
    if frequency.isInf then none else some (ofCore (some (1.0 / frequency)))
  | _ => some (ofCore none)

/-- The pace of a clock that counts seconds in fractions. -/
def exact (core : Option Rat) : Pace Rat where
  timer := 1 / (timerFrequency : Rat)
  display := 1 / (displayFrequency : Rat)
  report := 1
  core := core
  mostTicks next now := ((now - next) * (timerFrequency : Rat)).floor.toNat + 1

variable {τ : Type} [Add τ] [LE τ] [DecidableLE τ]

/-- Counts the ticks that are due at `now`, at most `most` of them, given how many are counted and
when the next one is. -/
def countTicks (interval now : τ) : Nat → Nat × τ → Nat × τ
  | 0, counted => counted
  | most + 1, (n, next) =>
    if next ≤ now then countTicks interval now most (n + 1, next + interval) else (n, next)

/-- How many ticks, the first one at `next`, are due at `now`, and when the one after them is. -/
def ticksDue (p : Pace τ) (next now : τ) : Nat × τ :=
  countTicks p.timer now (p.mostTicks next now) (0, next)

end Pace

end Chip8
