import Chip8.CommandLine.Option
import Chip8.Session.Run
import Chip8.Surroundings

/-!
# Launches

A launch takes settings, prepares everything that a session needs, and runs the session to its end.
Preparation stops at the first thing that is wrong; what was done up to there stays done.

* `prepare`: the steps up to the session.
* `launch`: a whole launch on the readings of a clock.
* `Launch.errorText`: what a launch writes to the error output.
-/

namespace Chip8

open CommandLine

/-- The version of the program. -/
def versionText : String := "1.0.0"

/-- The terms on which the program is given away. -/
def copyrightText : String :=
  "Copyright (C) 2022 Gregory Maynard-Hoare, licensed under GNU Affero General Public License v3.0"

/-- What stands in front of the terms in the first line of output. -/
def introduction : String := Presenter.applicationName ++ " V" ++ versionText ++ " -- "

/-- The first line of output. -/
def banner : String := introduction ++ copyrightText ++ "\n"

/-- Why a launch comes to no session. -/
inductive LaunchError where
  /-- The log has no such level. -/
  | unknownLogLevel
  /-- A window is asked for, and none can be opened. -/
  | noWindows
  /-- No file is named. -/
  | noFilename
  /-- The file cannot be read. -/
  | file (error : FileError)
  /-- The window cannot be opened. -/
  | window (error : Presenter.WindowError)
  /-- There is no key map. -/
  | noKeymap
  /-- The key map cannot be read. -/
  | keymap (error : Keymap.Error)
  /-- The program cannot be loaded. -/
  | load (error : LoadError)
  /-- The speed is left blank. -/
  | blankSpeed
  /-- The speed has more digits than can be written. -/
  | unwrittenSpeed
  /-- The speed is beyond all numbers of the clock. -/
  | tooFast
deriving DecidableEq, Repr

/-- The text of an error. -/
def LaunchError.message : LaunchError → String
  | .unknownLogLevel => "There is no such log level"
  | .noWindows =>
    "PyGame does not appear to be installed.  Use the null renderer to run headless."
  | .noFilename => "There is no file name"
  | .file e => e.message
  | .window e => e.message
  | .noKeymap => "There is no key map"
  | .keymap e => e.message
  | .load e => e.message
  | .blankSpeed => "The clock speed is missing"
  | .unwrittenSpeed => "The clock speed has too many digits"
  | .tooFast => "The clock speed is too large"

/-- What a launch has done. -/
structure Launch where
  /-- Entries of a lower rank are not shown. -/
  threshold : Nat := 0
  /-- What was reported before there was a session. -/
  log : Array LogEntry := #[]
  /-- Whether the display is open. -/
  displayOpen : Bool := false
  /-- The session, once there is one. -/
  session : Option Session := none

namespace Launch

/-- Adds an entry to the log. -/
def report (l : Launch) (text : String) : Launch :=
  { l with log := l.log.push { level := .info, source := .startup, text } }

/-- The launch with its session, whose emulator carries the log on. -/
def setSession (l : Launch) (s : Session) : Launch := { l with session := some s }

/-- Opens the display. -/
def openDisplay (l : Launch) : Launch := { l with displayOpen := true }

/-- Closes the display. -/
def closeDisplay (l : Launch) : Launch := { l with displayOpen := false }

/-- All that was reported, oldest first. -/
def entries (l : Launch) : Array LogEntry := (l.session.map (·.emulator.log)).getD l.log

/-- What is written to the error output: the lines of all entries that are shown. -/
def errorText (l : Launch) : String :=
  String.join
    ((l.entries.toList.filter (l.threshold ≤ ·.level.severity)).map (·.render ++ "\n"))

/-- How often the events of a window were polled. -/
def windowPolls (l : Launch) : Nat :=
  match l.session with
  | some s => if s.emulator.host.presenter.window.isSome then s.polls else 0
  | none => 0

end Launch

/-! ## Settings -/

namespace CommandLine.Settings

/-- The name of the level from which entries of the log are shown. Live traces are always shown. -/
def levelName (s : Settings) : String := if s.debug then "debug" else s.logLevel.textOr "info"

/-- How the screen is shown. -/
def rendererName (s : Settings) : String := s.renderer.textOr windowRenderer

/-- Whether the screen is shown in a window. Any unknown way to show it means that it is not. -/
def wantsWindow (s : Settings) : Bool := s.rendererName = windowRenderer

/-- The instructions in a second, unless they are left blank. -/
def speed? (s : Settings) : Option Int := s.clockSpeed.resolve standardSpeed

end CommandLine.Settings

/-- The words for a number of instructions in a second, if it can be written. -/
def speedText? (speed : Int) : Option String :=
  if speed ≤ 0 then some "uncapped" else (Numeral.written? speed).map (· ++ " ops/s")

/-! ## Preparation -/

/-- A step of a launch, which can fail and keeps what was done. -/
abbrev Launching := ExceptT LaunchError (StateM Launch)

/-- The value, or the failure for want of one. -/
def orFail {α : Type} (value : Option α) (error : LaunchError) : Launching α :=
  match value with
  | some a => pure a
  | none => throw error

/-- The program that the settings name. -/
def prepareProgram (s : Settings) (w : Surroundings) : Launching (List UInt8) := do
  match w.read (← orFail s.filename .noFilename) with
  | .error e => throw (.file e)
  | .ok program => return program

/-- The window system that the settings ask for, if they ask for one. -/
def prepareWindows (s : Settings) (w : Surroundings) : Launching (Option WindowSystem) := do
  if s.wantsWindow then return some (← orFail w.windows .noWindows) else return none

/-- The presenter that the settings ask for. The display is open before the window is. -/
def preparePresenter (s : Settings) : Option WindowSystem → Launching Presenter
  | none => return .headless s.scale
  | some system => do
    if let .error reason := system.start then throw (.window (.refused reason))
    modify Launch.openDisplay
    match Presenter.openWindow system s.scale s.palette with
    | .error e => throw (.window e)
    | .ok presenter => return presenter

/-- The keypad that the settings ask for. -/
def prepareKeypad (s : Settings) : Launching Keypad := do
  match Keymap.parse (← orFail s.keymap.value? .noKeymap) with
  | .error e => throw (.keymap e)
  | .ok keymap => return { keymap }

/-- Begins the session of an emulator. Without a window there are no signals. -/
def beginSession (s : Settings) (events : List (List HostEvent)) (emulator : Emulator) :
    Session where
  emulator := emulator
  inbox :=
    if s.wantsWindow then
      events.map fun poll => { signals := poll.filterMap emulator.host.keypad.keymap.signal? }
    else []

/-- Everything up to the run of the session. Gives the session and the pace of its run. -/
def prepare (s : Settings) (w : Surroundings) : Launching (Session × Pace Float) := do
  let threshold ← orFail (LogLevel.threshold? s.levelName) .unknownLogLevel
  modify fun l => { l with threshold }
  let windows ← prepareWindows s w
  modify (·.report ("Using " ++ s.rendererName ++ " renderer"))
  let program ← prepareProgram s w
  let presenter ← preparePresenter s windows
  let keypad ← prepareKeypad s
  let blank : Emulator :=
    { host := { keypad, presenter, random := w.random }, live := s.debug, log := (← get).log }
  let (loaded, emulator) := blank.load program
  modify (·.setSession (beginSession s w.events emulator))
  if let .error e := loaded then throw (.load e)
  let speed ← orFail s.speed? .blankSpeed
  let speedText ← orFail (speedText? speed) .unwrittenSpeed
  let session :=
    beginSession s w.events (emulator.report .info .startup ("Clock speed: " ++ speedText))
  modify (·.setSession session)
  match Pace.atSpeed? speed with
  | some pace => return (session, pace)
  | none =>
    modify Launch.closeDisplay
    throw .tooFast

/-! ## Whole launches -/

/-- How a launch ends. -/
structure Outcome where
  /-- Why there was no session, or how far its run has come. -/
  result : Except LaunchError (Standing Float)
  /-- What was done. -/
  launch : Launch
  /-- The readings of the clock that were not needed. -/
  unread : List Float

/-- Prepares a session and runs it until it ends or the readings do, which closes the display. -/
def launch (s : Settings) (w : Surroundings) (readings : List Float) : Outcome :=
  match (prepare s w).run.run {} with
  | (.error e, l) => { result := .error e, launch := l, unread := readings }
  | (.ok (session, pace), l) =>
    let (standing, session, unread) := session.run pace none readings
    { result := .ok standing, launch := (l.setSession session).closeDisplay, unread }

end Chip8
