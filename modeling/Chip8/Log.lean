/-!
# Log entries

What is reported while a machine runs: a level, the part that reports, and a text. A log is a list
of entries, and a threshold decides which of them are shown.

* `LogEntry.render`: the line of an entry.
* `LogLevel.threshold?`: the threshold that a name stands for.
-/

namespace Chip8

/-- How grave an entry is. -/
inductive LogLevel where
  /-- Of use when a program is examined. -/
  | debug
  /-- The normal course. -/
  | info
  /-- The end of a run. -/
  | error
deriving DecidableEq, Repr

/-- The part of the program that reports. -/
inductive LogSource where
  /-- The start-up. -/
  | startup
  /-- The emulator. -/
  | emulator
  /-- The instruction trace. -/
  | trace
  /-- The runner. -/
  | runner
deriving DecidableEq, Repr

/-- An entry of a log. -/
structure LogEntry where
  /-- How grave it is. -/
  level : LogLevel
  /-- Who reports. -/
  source : LogSource
  /-- What is reported. -/
  text : String
deriving DecidableEq, Repr

/-- The name of a level in a log line. -/
def LogLevel.name : LogLevel → String
  | .debug => "DEBUG"
  | .info => "INFO"
  | .error => "ERROR"

/-- The rank of a level; a higher one is graver. -/
def LogLevel.severity : LogLevel → Nat
  | .debug => 10
  | .info => 20
  | .error => 40

/-- The name of a part in a log line. -/
def LogSource.name : LogSource → String
  | .startup => "mchip"
  | .emulator => "mchip.engine"
  | .trace => "mchip.debugger"
  | .runner => "mchip.runner"

/-- The line of an entry. -/
def LogEntry.render (e : LogEntry) : String :=
  e.level.name ++ " " ++ e.source.name ++ ": " ++ e.text

/-- The capital of a letter. Two letters outside ASCII have capitals in it. -/
def capital (c : Char) : Char :=
  if c = 'ı' then 'I' else if c = 'ſ' then 'S' else c.toUpper

/-- The lowest rank that is shown under a threshold with a given name, in any case. -/
def LogLevel.threshold? (name : String) : Option Nat :=
  match name.map capital with
  | "CRITICAL" | "FATAL" => some 50
  | "ERROR" => some 40
  | "WARN" | "WARNING" => some 30
  | "INFO" => some 20
  | "DEBUG" => some 10
  | "NOTSET" => some 0
  | _ => none

end Chip8
