import Chip8.CommandLine.Usage
import Chip8.Launch

/-!
# The program

Reads the command line, prepares a session, and feeds it the readings of the host's clock until it
ends. No window can be opened, so a session has to be headless.
-/

namespace Chip8

/-- The seconds on a clock that never goes back. -/
def clockReading : IO Float := return (← IO.monoNanosNow).toFloat / 1000000000.0

/-- The bytes of a file, or why it cannot be read. -/
def fileContent (name : String) : IO (Except FileError (List UInt8)) := do
  try
    return .ok (← IO.FS.readBinFile name).toList
  catch e =>
    match e with
    | .noFileOrDirectory .. => return .error .notFound
    | _ => return .error .unreadable

/-- A session with nothing in its log. -/
def forgetLog (s : Session) : Session := { s with emulator := { s.emulator with log := #[] } }

/-- Writes the entries of a session's log that are shown, and forgets them. -/
def flushLog (threshold : Nat) (s : Session) : IO Session := do
  IO.eprint (Launch.errorText { threshold, session := some s })
  return forgetLog s

/-- Feeds a session the readings of the clock until it ends. -/
partial def drive (p : Pace Float) (threshold : Nat) (phase : Phase Float) (s : Session) :
    IO Ending := do
  let (result, s) := s.feed p none phase (← clockReading)
  let s ← flushLog threshold s
  match result with
  | .error ending => return ending
  | .ok phase => drive p threshold phase s

/-- Runs a program under the given settings. Gives the exit code. -/
def runProgram (settings : CommandLine.Settings) : IO UInt32 := do
  IO.print banner
  let content ← fileContent (settings.filename.getD "")
  let random := RandomSource.ofSeed (UInt64.ofNat (← IO.monoNanosNow))
  let surroundings := { file := fun _ => content, random }
  let (result, l) := (prepare settings surroundings).run.run {}
  IO.eprint l.errorText
  match result with
  | .error e =>
    IO.eprintln e.message
    return 1
  | .ok (session, pace) =>
    match ← drive pace l.threshold .opening (forgetLog session) with
    | .fault f =>
      IO.eprintln f.message
      return 1
    | .paint e =>
      IO.eprintln e.message
      return 1
    | _ => return 0

end Chip8

/-- Runs the program. -/
def main (args : List String) : IO UInt32 := do
  match Chip8.CommandLine.parse args with
  | .ok settings => Chip8.runProgram settings
  | .error stop =>
    let answer := stop.answer
    IO.print answer.output
    IO.eprint answer.errors
    return UInt32.ofNat answer.code
