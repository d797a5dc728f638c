import Chip8.Host

/-!
# Hosts seen from a machine

Of its host a machine sees the held keys and the random values to come, and all that it changes is
how many of these are drawn and whether a redraw is due.

* `RandomSource.upcoming`: the values to come.
* `Host.Alike`: hosts that a machine cannot tell apart.
* `Host.Uses`: how many values are drawn, and whether a redraw is asked for.
* `Host.still`: a host on which nothing happens.
-/

namespace Chip8

namespace RandomSource

/-- The values to come. -/
def upcoming (r : RandomSource) (n : Nat) : Int := r.values (r.drawn + n)

@[simp] theorem next_fst (r : RandomSource) : r.next.1 = r.upcoming 0 := rfl

theorem upcoming_next (r : RandomSource) (n : Nat) :
    r.next.2.upcoming n = r.upcoming (n + 1) := by
  simp only [upcoming, next]
  congr 1
  omega

end RandomSource

namespace Host

/-- The hosts hold the same keys and have the same random values to come. -/
structure Alike (h g : Host) : Prop where
  /-- The same keys are held. -/
  held : h.keypad.held = g.keypad.held
  /-- The same random values are to come. -/
  upcoming : h.random.upcoming = g.random.upcoming

theorem Alike.next {h g : Host} (ha : h.Alike g) :
    h.random.next.2.upcoming = g.random.next.2.upcoming := by
  funext n
  rw [RandomSource.upcoming_next, RandomSource.upcoming_next, ha.upcoming]

theorem Alike.isHeld {h g : Host} (ha : h.Alike g) (key : Fin 16) :
    h.keypad.isHeld key = g.keypad.isHeld key := by
  rw [Keypad.isHeld, Keypad.isHeld, ha.held]

theorem Alike.firstHeld? {h g : Host} (ha : h.Alike g) :
    h.keypad.firstHeld? = g.keypad.firstHeld? := by
  unfold Keypad.firstHeld? Keypad.isHeld
  rw [ha.held]

/-- On the way from one host to another so many random values are drawn, and a redraw is asked for
or not. -/
structure Uses (h h' : Host) (draws : Nat) (redraw : Bool) : Prop where
  /-- The values drawn add up. -/
  drawn : h'.random.drawn = h.random.drawn + draws
  /-- A redraw that is asked for is due, and one that was due stays so. -/
  redraw : h'.presenter.redrawPending = (h.presenter.redrawPending || redraw)

theorem Uses.refl (h : Host) : h.Uses h 0 false := ⟨rfl, (Bool.or_false _).symm⟩

theorem Uses.trans {h h' h'' : Host} {j k : Nat} {b c : Bool} (hu : h.Uses h' j b)
    (hu' : h'.Uses h'' k c) : h.Uses h'' (j + k) (b || c) where
  drawn := by rw [hu'.drawn, hu.drawn, Nat.add_assoc]
  redraw := by rw [hu'.redraw, hu.redraw, Bool.or_assoc]

/-- A host without a window on which no key is held, with zeros for random values. -/
def still : Host where
  keypad := {
    keymap := {
      codes := (List.range 16).map Int.ofNat
      length_codes := by decide
      nodup_codes := by decide } }
  presenter := .headless .absent
  random := { values := fun _ => 0 }

end Host

end Chip8
