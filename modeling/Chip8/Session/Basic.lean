import Chip8.Emulator
import Chip8.Session.Pace

/-!
# Sessions

A session drives an emulator against a clock. It keeps count of instructions and frames, reports
both in the title about once a second, and polls the user's signals whenever a refresh is due. The
session owns no clock: each operation is told the time, and a schedule holds the times from which
the next report, tick and refresh are due.

Operations that can end the session give it as the end leaves it.

* `Poll.ofSignals`: what a poll brings.
* `Session.turn`: one turn, which ends with an instruction.
* `Session.syncPause`: the emulator is idle exactly while the user has paused it.
-/

namespace Chip8

/-- What a session counts. -/
structure Tally where
  /-- The frames painted since the last report. -/
  frames : Nat := 0
  /-- The instructions completed since the last report. -/
  ops : Nat := 0
  /-- The instructions completed. -/
  total : Nat := 0
deriving DecidableEq, Repr

/-- What a session reports. -/
structure Report where
  /-- The frames painted since the report before. -/
  frames : Nat
  /-- The instructions completed since the report before. -/
  ops : Nat
deriving DecidableEq, Repr

/-- The title that shows a report. -/
def Report.title (r : Report) : String :=
  Presenter.applicationName ++ " - " ++ toString r.frames ++ " FPS, " ++ toString r.ops ++ " OPS"

/-- The times from which the next report, timer tick and refresh are due. -/
structure Schedule (τ : Type) where
  /-- When the next report is due. -/
  report : τ
  /-- When the next timer tick is due. -/
  tick : τ
  /-- When the next refresh is due. -/
  display : τ

/-- The schedule of a session that begins: everything is due at once. -/
def Schedule.start {τ : Type} (now : τ) : Schedule τ := ⟨now, now, now⟩

/-- What a poll of the user's signals brings. -/
structure Poll where
  /-- The signals, in order. -/
  signals : List Signal := []
  /-- Whether the poll breaks off behind them, at a signal of a key that there is not. -/
  broken : Bool := false
deriving DecidableEq, Repr

/-- The poll that brings signals of which some may name no key. -/
def Poll.ofSignals : List (Option Signal) → Poll
  | [] => {}
  | none :: _ => { broken := true }
  | some s :: signals =>
    let rest := ofSignals signals
    { rest with signals := s :: rest.signals }

/-- Why a session ends. -/
inductive Ending where
  /-- All the instructions asked for are completed. -/
  | finished
  /-- The user wants to leave. -/
  | quit
  /-- A signal names a key that there is not. -/
  | noSuchKey
  /-- The machine cannot go on. -/
  | fault (fault : Fault)
  /-- The presenter cannot paint. -/
  | paint (error : Presenter.Error)
deriving DecidableEq, Repr

/-- An emulator that is driven against a clock. -/
structure Session where
  /-- The emulator. -/
  emulator : Emulator
  /-- What is counted. -/
  tally : Tally := {}
  /-- What the polls to come bring. -/
  inbox : List Poll := []
  /-- The polls made. -/
  polls : Nat := 0
  /-- The reports made, oldest first. -/
  reports : Array Report := #[]

namespace Session

/-! ## Reports and counts -/

/-- Shows a report in the title and starts to count anew. -/
def report (s : Session) : Session :=
  let r : Report := { frames := s.tally.frames, ops := s.tally.ops }
  { s with
    emulator := s.emulator.setPresenter (s.emulator.host.presenter.setTitle r.title)
    reports := s.reports.push r
    tally := { total := s.tally.total } }

/-- Counts an instruction. -/
def countOp (s : Session) : Session :=
  { s with tally := { s.tally with ops := s.tally.ops + 1, total := s.tally.total + 1 } }

/-- Whether a number of instructions, if there is one, is reached. -/
def reached (s : Session) (limit : Option Int) : Bool :=
  match limit with
  | none => false
  | some n => n ≤ s.tally.total

/-! ## The user -/

/-- Applies the signals of the next poll. The session ends if one of them asks to quit, or if the
poll breaks off. -/
def poll (s : Session) : Except Ending Unit × Session :=
  let poll := s.inbox.headD {}
  let (quits, keypad) := s.emulator.host.keypad.poll poll.signals
  (if poll.broken then .error .noSuchKey else if quits then .error .quit else .ok (),
    { s with emulator := s.emulator.setKeypad keypad, inbox := s.inbox.tail, polls := s.polls + 1 })

/-- Puts the emulator off if the user has paused it, and lets it go on if not. -/
def syncPause (s : Session) : Session :=
  match s.emulator.host.keypad.paused, s.emulator.mode with
  | true, .running =>
    { s with emulator := (s.emulator.report .info .runner "Paused").setIdle }
  | false, .idle =>
    { s with emulator := (s.emulator.report .info .runner "Resumed").resume }
  | _, _ => s

/-- Refreshes the presenter, and counts a frame if it painted. -/
def refresh (s : Session) : Except Ending Unit × Session :=
  match s.emulator.refresh with
  | (.error e, emulator) => (.error (.paint e), { s with emulator })
  | (.ok false, emulator) => (.ok (), { s with emulator })
  | (.ok true, emulator) =>
    (.ok (), { s with emulator, tally := { s.tally with frames := s.tally.frames + 1 } })

/-! ## Instructions -/

/-- Reports a fault of the program, with all that the machine shows. Other faults are not
reported. -/
def logFault (e : Emulator) : Fault → Emulator
  | .decode _ _ | .stack _ =>
    e.report .error .runner ("Emulation halted.\n" ++ e.machine.fullDump "???")
  | _ => e

/-- Carries out one instruction. -/
def cycle (s : Session) : Except Ending Unit × Session :=
  match s.emulator.cycle with
  | (.ok (), emulator) => (.ok (), { s with emulator })
  | (.error f, emulator) => (.error (.fault f), { s with emulator := logFault emulator f })

/-! ## Turns -/

variable {τ : Type} [Add τ] [LE τ] [DecidableLE τ]

/-- Makes the report that is due. Gives the time of the next one. -/
def reportDue (s : Session) (p : Pace τ) (due now : τ) : τ × Session :=
  if due ≤ now then (now + p.report, s.report) else (due, s)

/-- Makes the timer ticks that are due. Gives the time of the next one. -/
def ticksDue (s : Session) (p : Pace τ) (due now : τ) : τ × Session :=
  let (n, next) := p.ticksDue due now
  (next, { s with emulator := n.repeat Emulator.tick s.emulator })

/-- Polls and refreshes if that is due. Gives the time of the next refresh. -/
def displayDue (s : Session) (p : Pace τ) (due now : τ) : Except Ending τ × Session :=
  if due ≤ now then
    match s.poll with
    | (.error e, s) => (.error e, s)
    | (.ok (), s) =>
      match s.syncPause.refresh with
      | (.error e, s) => (.error e, s)
      | (.ok (), s) => (.ok (now + p.display), s)
  else (.ok due, s)

/-- One turn: what is due, then an instruction. Gives what is due next. -/
def turn (s : Session) (p : Pace τ) (due : Schedule τ) (now : τ) :
    Except Ending (Schedule τ) × Session :=
  let (report, s) := s.reportDue p due.report now
  let (tick, s) := s.ticksDue p due.tick now
  match s.displayDue p due.display now with
  | (.error e, s) => (.error e, s)
  | (.ok display, s) =>
    match s.cycle with
    | (.error e, s) => (.error e, s)
    | (.ok (), s) => (.ok { report, tick, display }, s)

end Session

end Chip8
