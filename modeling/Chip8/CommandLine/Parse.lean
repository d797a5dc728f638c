import Chip8.CommandLine.Word

/-!
# Reading the command line

Options and the name of the program's file stand in any order. What follows the first `--` is no
option, and a detached `--` is no value. Arguments that mean nothing are put aside and reported at
the end, so that a request for help or an error in a value is answered before.

* `CommandLine.parse`: reads the arguments.
* `Draft.consume`: reads the words in front of the first `--`.
-/

namespace Chip8.CommandLine

/-- Why a command line gives no settings. -/
inductive Stop where
  /-- The user asks for the help text. -/
  | help
  /-- Something is wrong. -/
  | error (error : Error)
deriving DecidableEq, Repr

/-- The arguments of a command line. -/
structure Line where
  /-- The arguments in front of the first `--`, with what each says. -/
  words : List (String × Word)
  /-- The arguments behind the first `--`, if there is one. -/
  rest : Option (List String)
deriving DecidableEq, Repr

/-- Reads each argument in front of the first `--` by itself. -/
def Line.ofArgs : List String → Except Error Line
  | [] => .ok { words := [], rest := none }
  | arg :: args =>
    if arg = "--" then .ok { words := [], rest := some args }
    else
      match Word.ofArg arg, Line.ofArgs args with
      | .error e, _ => .error e
      | _, .error e => .error e
      | .ok word, .ok line => .ok { line with words := (arg, word) :: line.words }

/-- What the arguments read so far amount to. -/
structure Draft where
  /-- The options. -/
  options : Options := {}
  /-- The name of the file. -/
  filename : Option String := none
  /-- The last argument read was the name of the file. -/
  atFilename : Bool := false
  /-- The arguments that mean nothing. -/
  extras : List String := []
deriving DecidableEq, Repr

namespace Draft

/-- Puts arguments aside. -/
def addExtras (d : Draft) (args : List String) : Draft :=
  { d with extras := d.extras ++ args, atFilename := false }

/-- Takes an argument that is no option: the name of the file, if there is none yet. -/
def addPlain (d : Draft) (arg : String) : Draft :=
  match d.filename with
  | none => { d with filename := some arg, atFilename := true }
  | some _ => d.addExtras [arg]

/-- Takes switches. Nothing is read behind a request for help. -/
def takeSwitches (d : Draft) : List Switch → Except Stop Draft
  | [] => .ok { d with atFilename := false }
  | .help :: _ => .error .help
  | .debug :: switches =>
    { d with options := { d.options with debug := true } }.takeSwitches switches

/-- Takes switches, then a setting with its value. -/
def takeSetting (d : Draft) (switches : List Switch) (s : Setting) (value : String) :
    Except Stop Draft :=
  match d.takeSwitches switches with
  | .error stop => .error stop
  | .ok d =>
    match d.options.assign s value with
    | .error e => .error (.error e)
    | .ok options => .ok { d with options }

/-- Reads the words in front of the first `--`. -/
def consume (d : Draft) : List (String × Word) → Except Stop Draft
  | [] => .ok d
  | (arg, .plain) :: words => (d.addPlain arg).consume words
  | (arg, .unknown) :: words => (d.addExtras [arg]).consume words
  | (_, .faulty e) :: _ => .error (.error e)
  | (_, .options switches .none) :: words =>
    match d.takeSwitches switches with
    | .error stop => .error stop
    | .ok d => d.consume words
  | (_, .options switches (.value s text)) :: words =>
    match d.takeSetting switches s text with
    | .error stop => .error stop
    | .ok d => d.consume words
  | (_, .options switches (.awaited s)) :: (text, .plain) :: words =>
    match d.takeSetting switches s text with
    | .error stop => .error stop
    | .ok d => d.consume words
  | (_, .options _ (.awaited s)) :: _ => .error (.error (.missingValue s))

/-- Reads the arguments behind the first `--`. It means nothing itself unless it stands next to the
name of the file. -/
def consumeRest (d : Draft) (rest : List String) : Draft :=
  match d.filename, rest with
  | none, name :: rest => { d with filename := some name }.addExtras rest
  | none, [] => d.addExtras ["--"]
  | some _, rest => d.addExtras (if d.atFilename then rest else "--" :: rest)

/-- The settings, if there is a name and nothing was put aside. -/
def settings (d : Draft) : Except Stop Settings :=
  match d.filename, d.extras with
  | none, _ => .error (.error .missingFilename)
  | some filename, [] => .ok { d.options with filename := some filename }
  | some _, extras => .error (.error (.unrecognized extras))

end Draft

/-- Reads a command line. -/
def parse (args : List String) : Except Stop Settings :=
  match Line.ofArgs args with
  | .error e => .error (.error e)
  | .ok line =>
    match ({} : Draft).consume line.words with
    | .error stop => .error stop
    | .ok d => ((line.rest.map d.consumeRest).getD d).settings

end Chip8.CommandLine
