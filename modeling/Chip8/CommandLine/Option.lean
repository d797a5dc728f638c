import Chip8.Given
import Chip8.Keypad.Keymap
import Chip8.Text.Quoted

/-!
# The options of the command line

A switch is given or not; a setting takes a value, or none if `--` stands in its place. Each has a
long name, behind two dashes, and most have a letter, behind one.

* `Options.assign`: gives a setting its value, or tells why the value is refused.
* `Error.message`: the text of all that can be wrong with a command line.
-/

namespace Chip8.CommandLine

/-- An option without a value. -/
inductive Switch where
  /-- Asks for the help text. -/
  | help
  /-- Turns live tracing on. -/
  | debug
deriving DecidableEq, Repr

/-- An option with a value. -/
inductive Setting where
  /-- The instructions in a second. -/
  | clockSpeed
  /-- How the screen is shown. -/
  | renderer
  /-- The width of the window. -/
  | scale
  /-- The host codes of the keys. -/
  | keymap
  /-- The colours of the pixels. -/
  | palette
  /-- What is shown of the log. -/
  | logLevel
deriving DecidableEq, Repr

/-- An option of either sort. -/
inductive Flag where
  /-- An option without a value. -/
  | switch (switch : Switch)
  /-- An option with a value. -/
  | setting (setting : Setting)
deriving DecidableEq, Repr

namespace Flag

/-- The options, in the order in which the help text lists them. -/
def all : List Flag :=
  [.switch .help, .setting .clockSpeed, .setting .renderer, .setting .scale, .setting .keymap,
    .setting .palette, .setting .logLevel, .switch .debug]

/-- The long name of an option. -/
def name : Flag → String
  | .switch .help => "help"
  | .switch .debug => "debug"
  | .setting .clockSpeed => "clock_speed"
  | .setting .renderer => "renderer"
  | .setting .scale => "scale"
  | .setting .keymap => "keymap"
  | .setting .palette => "palette"
  | .setting .logLevel => "log_level"

/-- The letter of an option. -/
def letter? : Flag → Option Char
  | .switch .help => some 'h'
  | .switch .debug => some 'd'
  | .setting .clockSpeed => some 'c'
  | .setting .renderer => some 'r'
  | .setting .scale => some 's'
  | .setting .keymap => some 'k'
  | .setting .palette => none
  | .setting .logLevel => some 'l'

/-- The option with a given letter. -/
def ofLetter? (c : Char) : Option Flag := all.find? fun f => f.letter? == some c

/-- The options whose long names begin with the given characters. -/
def startingWith (start : List Char) : List Flag :=
  all.filter fun f => start.isPrefixOf f.name.toList

/-- The long spelling of an option. -/
def long (f : Flag) : String := "--" ++ f.name

/-- Both spellings of an option. -/
def spellings (f : Flag) : String :=
  match f.letter? with
  | some c => "-" ++ String.singleton c ++ "/" ++ f.long
  | none => f.long

end Flag

/-- The way to show the screen in a window. -/
def windowRenderer : String := "pygame"

/-- The ways to show the screen, the usual one first. -/
def renderers : List String := [windowRenderer, "null"]

/-- The names that a threshold of the log can be given by. -/
def logLevels : List String := ["debug", "info", "warning", "error"]

/-! ## Errors -/

/-- What is wrong with a command line. -/
inductive Error where
  /-- The start of a long name that several options share. -/
  | ambiguous (arg : String) (flags : List Flag)
  /-- A setting without a value. -/
  | missingValue (setting : Setting)
  /-- A switch with a value. -/
  | unwantedValue (switch : Switch) (value : String)
  /-- A value that should be an integer. -/
  | notAnInteger (setting : Setting) (value : String)
  /-- A value that is none of the choices. -/
  | notAChoice (setting : Setting) (value : String) (choices : List String)
  /-- There is no file name. -/
  | missingFilename
  /-- Arguments that mean nothing. -/
  | unrecognized (args : List String)
deriving DecidableEq, Repr

/-- The text of an error. -/
def Error.message : Error → String
  | .ambiguous arg flags =>
    "ambiguous option: " ++ arg ++ " could match " ++ ", ".intercalate (flags.map Flag.long)
  | .missingValue s => ofFlag (.setting s) "expected one argument"
  | .unwantedValue s value =>
    ofFlag (.switch s) ("ignored explicit argument " ++ Quoted.quote value)
  | .notAnInteger s value => ofFlag (.setting s) ("invalid int value: " ++ Quoted.quote value)
  | .notAChoice s value choices =>
    ofFlag (.setting s)
      ("invalid choice: " ++ Quoted.quote value ++ " (choose from " ++
        ", ".intercalate (choices.map Quoted.quote) ++ ")")
  | .missingFilename => "the following arguments are required: filename"
  | .unrecognized args => "unrecognized arguments: " ++ " ".intercalate args
where
  /-- A complaint about one option. -/
  ofFlag (f : Flag) (complaint : String) : String := "argument " ++ f.spellings ++ ": " ++ complaint

/-! ## Values -/

/-- The values of the options. -/
structure Options where
  /-- The instructions in a second. -/
  clockSpeed : Given Int := .absent
  /-- How the screen is shown. -/
  renderer : Given String := .absent
  /-- The width of the window. -/
  scale : Given Int := .absent
  /-- The host codes of the keys. -/
  keymap : Given String := .value Keymap.standardText
  /-- The colours of the pixels. -/
  palette : Given String := .absent
  /-- What is shown of the log. -/
  logLevel : Given String := .absent
  /-- Whether live tracing is on. -/
  debug : Bool := false
deriving DecidableEq, Repr

/-- The options with the name of the program's file. -/
structure Settings extends Options where
  /-- The name of the file. A command line always gives one. -/
  filename : Option String
deriving DecidableEq, Repr

/-- What stands in the place of a value to leave a setting blank. -/
def blankText : String := "--"

/-- Reads what is given for a setting. -/
def readGiven {α : Type} (read : String → Except Error α) (text : String) :
    Except Error (Given α) :=
  if text = blankText then .ok .blank else (read text).map .value

/-- Reads the value of a setting as an integer. -/
def readInteger (s : Setting) (value : String) : Except Error Int :=
  match Numeral.decimal? value with
  | some n => .ok n
  | none => .error (.notAnInteger s value)

/-- Accepts the value of a setting if it is one of the choices. -/
def choose (s : Setting) (choices : List String) (value : String) : Except Error String :=
  if value ∈ choices then .ok value else .error (.notAChoice s value choices)

/-- Gives a setting its value. -/
def Options.assign (o : Options) (s : Setting) (text : String) : Except Error Options :=
  match s with
  | .clockSpeed => (readGiven (readInteger s) text).map fun clockSpeed => { o with clockSpeed }
  | .renderer => (readGiven (choose s renderers) text).map fun renderer => { o with renderer }
  | .scale => (readGiven (readInteger s) text).map fun scale => { o with scale }
  | .keymap => (readGiven .ok text).map fun keymap => { o with keymap }
  | .palette => (readGiven .ok text).map fun palette => { o with palette }
  | .logLevel => (readGiven (choose s logLevels) text).map fun logLevel => { o with logLevel }

end Chip8.CommandLine
