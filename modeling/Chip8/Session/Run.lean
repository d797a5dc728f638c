import Chip8.Session.Basic

/-!
# Runs of a session

A run of a session is a sequence of turns. It is fed the readings of a clock one after the other:
the first opens the run, each turn begins with one, and at a limited speed more are read until the
wait for the next instruction is over. An instruction counts once its wait is over.

* `Session.feed`: what one reading does.
* `Session.run`: a run on a list of readings, of which some can be left.
* `Session.runFrom_append`: a run that is still going takes the next readings up where it stands.
-/

namespace Chip8

/-- What a run does with the next reading of the clock. -/
inductive Phase (τ : Type) where
  /-- The reading opens the run. -/
  | opening
  /-- The reading begins a turn. -/
  | turn (due : Schedule τ)
  /-- The reading ends the wait of a turn if it is not before `wake`. -/
  | waiting (due : Schedule τ) (wake : τ)

/-- Where a run stands: over, or in a phase. -/
abbrev Standing (τ : Type) := Except Ending (Phase τ)

namespace Session

variable {τ : Type} [Add τ] [LE τ] [DecidableLE τ]

/-- Begins another turn, unless the limit of instructions is reached. -/
def next (s : Session) (limit : Option Int) (due : Schedule τ) : Standing τ × Session :=
  (if s.reached limit then .error .finished else .ok (.turn due), s)

/-- Takes one reading of the clock. -/
def feed (p : Pace τ) (limit : Option Int) (phase : Phase τ) (s : Session) (now : τ) :
    Standing τ × Session :=
  match phase with
  | .opening => s.next limit (.start now)
  | .turn due =>
    match s.turn p due now with
    | (.error e, s) => (.error e, s)
    | (.ok due, s) =>
      match p.core with
      | none => s.countOp.next limit due
      | some wait => (.ok (.waiting due (now + wait)), s)
  | .waiting due wake =>
    if wake ≤ now then s.countOp.next limit due else (.ok (.waiting due wake), s)

/-- Runs until the session ends or the readings do. Gives the readings that are left. -/
def runFrom (p : Pace τ) (limit : Option Int) (phase : Phase τ) (s : Session) :
    List τ → Standing τ × Session × List τ
  | [] => (.ok phase, s, [])
  | now :: later =>
    match s.feed p limit phase now with
    | (.error e, s) => (.error e, s, later)
    | (.ok phase, s) => s.runFrom p limit phase later

/-- A run from its first reading. -/
def run (p : Pace τ) (limit : Option Int) (s : Session) (readings : List τ) :
    Standing τ × Session × List τ := s.runFrom p limit .opening readings

theorem runFrom_append (p : Pace τ) (limit : Option Int) (phase : Phase τ) (s : Session)
    (first second : List τ) :
    s.runFrom p limit phase (first ++ second) =
      match s.runFrom p limit phase first with
      | (.error e, s, left) => (.error e, s, left ++ second)
      | (.ok phase, s, _) => s.runFrom p limit phase second := by
  induction first generalizing phase s with
  | nil => rfl
  | cons now later ih =>
    rw [List.cons_append, runFrom, runFrom]
    match s.feed p limit phase now with
    | (.error _, _) => rfl
    | (.ok phase, s) => exact ih phase s

end Session

end Chip8
