import Chip8.Keypad.Keymap

/-!
# Keypads

A keypad knows which of its sixteen keys are held and whether the user has paused the machine.
Signals change it; a poll applies a list of them and tells whether one asked to quit.

* `Keypad.poll`: every signal of a poll is applied, also after one that asks to quit.
* `Keymap.signal?`: what an event on the host's keyboard means.
-/

namespace Chip8

/-- The held keys and the pause switch. -/
structure Keypad where
  /-- The host codes of the keys. -/
  keymap : Keymap
  /-- Whether each key is held. -/
  held : Vector Bool 16 := Vector.replicate 16 false
  /-- Whether the user has paused the machine. -/
  paused : Bool := false
deriving DecidableEq

/-- Something that happens to a keypad. -/
inductive Signal where
  /-- The user wants to leave. -/
  | quit
  /-- The user pauses or goes on. -/
  | togglePause
  /-- A key goes down. -/
  | press (key : Fin 16)
  /-- A key comes up. -/
  | release (key : Fin 16)
deriving DecidableEq, Repr

/-- An event that the host reports. -/
inductive HostEvent where
  /-- A key of the keyboard goes down. -/
  | keyDown (code : Int)
  /-- A key of the keyboard comes up. -/
  | keyUp (code : Int)
  /-- The window is closed. -/
  | close
  /-- Anything else. -/
  | other
deriving DecidableEq, Repr

namespace Keypad

/-- The number of a key that the lookup `key` means: numbers below zero count from the last key. -/
def slot? (key : Int) : Option (Fin 16) :=
  if h : 0 ≤ key ∧ key < 16 then some ⟨key.toNat, by omega⟩
  else if h : -16 ≤ key ∧ key < 0 then some ⟨(key + 16).toNat, by omega⟩
  else none

/-- Whether a key is held. -/
def isHeld (p : Keypad) (key : Fin 16) : Bool := p.held.get key

/-- Sets whether a key is held. -/
def setHeld (p : Keypad) (key : Fin 16) (down : Bool) : Keypad :=
  { p with held := p.held.setIfInBounds key.val down }

/-- The keypad with exactly the given keys held. -/
def holdExactly (p : Keypad) (keys : List (Fin 16)) : Keypad :=
  { p with held := Vector.ofFn fun k => keys.contains k }

/-- The lowest key that is held. -/
def firstHeld? (p : Keypad) : Option (Fin 16) := (List.finRange 16).find? p.isHeld

/-- The keys that are held, in ascending order. -/
def heldKeys (p : Keypad) : List (Fin 16) := (List.finRange 16).filter p.isHeld

/-- Turns the pause switch over. -/
def togglePause (p : Keypad) : Keypad := { p with paused := !p.paused }

/-- Applies one signal. -/
def apply (p : Keypad) : Signal → Keypad
  | .quit => p
  | .togglePause => p.togglePause
  | .press key => p.setHeld key true
  | .release key => p.setHeld key false

/-- Applies the signals of a poll in order, and tells whether one of them asks to quit. -/
def poll (p : Keypad) (signals : List Signal) : Bool × Keypad :=
  (signals.contains .quit, signals.foldl apply p)

end Keypad

namespace Keymap

/-- The host code of the Escape key, which quits. -/
def escapeCode : Int := 27

/-- The host code of the P key, which pauses. -/
def pauseCode : Int := 112

/-- What a host event means to a keypad. Escape and P act when they come up; P is never a key of
the keypad, and Escape coming up does not release one. -/
def signal? (m : Keymap) : HostEvent → Option Signal
  | .keyDown code => if code = pauseCode then none else (m.keyOf? code).map .press
  | .keyUp code =>
    if code = escapeCode then some .quit
    else if code = pauseCode then some .togglePause
    else (m.keyOf? code).map .release
  | .close => some .quit
  | .other => none

end Keymap

/-- Applies the host events of a poll in order, and tells whether one of them asks to quit. -/
def Keypad.pollHost (p : Keypad) (events : List HostEvent) : Bool × Keypad :=
  p.poll (events.filterMap p.keymap.signal?)

end Chip8
