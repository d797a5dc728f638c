/-!
# What is given for a setting

A setting can be left out, which leaves it at its usual value, or be left blank, which leaves it
without a value.

* `Given.resolve`: the value that counts.
* `Given.textOr`: the text that counts where a blank is no better than nothing.
-/

namespace Chip8

/-- What is given for a setting. -/
inductive Given (α : Type) where
  /-- Nothing. -/
  | absent
  /-- That it has no value. -/
  | blank
  /-- A value. -/
  | value (value : α)
deriving DecidableEq, Repr

namespace Given

variable {α : Type}

/-- The value, if one is given. -/
def value? : Given α → Option α
  | .value a => some a
  | _ => none

/-- The value, or the usual one if nothing is given. A blank has none. -/
def resolve (usual : α) : Given α → Option α
  | .absent => some usual
  | .blank => none
  | .value a => some a

/-- The text, or the usual one if no character is given. -/
def textOr (usual : String) : Given String → String
  | .absent | .blank | .value "" => usual
  | .value text => text

@[simp] theorem resolve_absent (usual : α) : (absent : Given α).resolve usual = some usual := rfl

@[simp] theorem resolve_value (usual a : α) : (Given.value a).resolve usual = some a := rfl

/-- Only a blank is left without a value. -/
theorem resolve_eq_none_iff {usual : α} {g : Given α} : g.resolve usual = none ↔ g = .blank := by
  cases g <;> simp [resolve]

end Given

end Chip8
