import Chip8.CommandLine.Option

/-!
# The words of the command line

What one argument says, by itself. Letters can stand together behind one dash; the value of a
setting can be written to the end of its argument, with or without an equals sign behind the first
letter, without one behind the others, and with one behind a long name. A long name can be cut short
as long as it fits one option only.

* `Word.ofArg`: reads an argument.
* `Word.ofLetters`: reads the letters behind one dash.
-/

namespace Chip8.CommandLine

/-- How the options in one argument end. -/
inductive Tail where
  /-- With a switch. -/
  | none
  /-- With a setting and its value. -/
  | value (setting : Setting) (text : String)
  /-- With a setting whose value is the next argument. -/
  | awaited (setting : Setting)
deriving DecidableEq, Repr

/-- What an argument says. -/
inductive Word where
  /-- It is no option. -/
  | plain
  /-- It looks like an option that there is not. -/
  | unknown
  /-- It gives options: some switches, then something else perhaps. -/
  | options (switches : List Switch) (tail : Tail)
  /-- It gives options, one of them wrongly. -/
  | faulty (error : Error)
deriving DecidableEq, Repr

namespace Word

/-- Whether an argument is written like a negative number, in digits of any script, with a point
perhaps. A newline may follow. -/
def looksNegative (cs : List Char) : Bool :=
  match cs with
  | '-' :: rest =>
    let isDigit := fun c => (DecimalDigit.value? c).isSome
    let whole := rest.takeWhile isDigit
    match rest.dropWhile isDigit with
    | [] | ['\n'] => !whole.isEmpty
    | '.' :: fraction =>
      fraction.takeWhile isDigit ≠ [] ∧ fraction.dropWhile isDigit ∈ [[], ['\n']]
    | _ => false
  | _ => false

/-- What an argument with a dash in front says if it fits no option. -/
def ofStranger (cs : List Char) : Word :=
  if looksNegative cs ∨ ' ' ∈ cs then .plain else .unknown

/-- Puts a switch in front of what an argument says. -/
def addSwitch (s : Switch) : Word → Word
  | .options switches tail => .options (s :: switches) tail
  | word => word

/-- What the option with a letter says with the characters behind it. Behind a switch they are
letters of further options, and a value that it does not want if the first is none. -/
def ofLetters : Flag → List Char → Word
  | .setting s, [] => .options [] (.awaited s)
  | .setting s, value => .options [] (.value s (String.ofList value))
  | .switch s, [] => .options [s] .none
  | .switch s, c :: rest =>
    match Flag.ofLetter? c with
    | some f => addSwitch s (ofLetters f rest)
    | none => .faulty (.unwantedValue s (String.ofList (c :: rest)))

/-- What the option with a letter says with the characters behind an equals sign. The sign in front
of further letters counts for nothing. -/
def ofAssigned : Flag → List Char → Word
  | .setting s, value => .options [] (.value s (String.ofList value))
  | .switch s, [] => .faulty (.unwantedValue s "")
  | .switch s, letters => ofLetters (.switch s) letters

/-- What a long option says, with a value perhaps. -/
def ofName : Flag → Option String → Word
  | .setting s, none => .options [] (.awaited s)
  | .setting s, some value => .options [] (.value s value)
  | .switch s, none => .options [s] .none
  | .switch s, some value => .faulty (.unwantedValue s value)

/-- The characters in front of the first equals sign, and the text behind it. -/
def splitValue (cs : List Char) : List Char × Option String :=
  (cs.takeWhile (· ≠ '='), (cs.dropWhile (· ≠ '=')).tail?.map String.ofList)

/-- Reads an argument. -/
def ofArg (arg : String) : Except Error Word :=
  match arg.toList with
  | '-' :: '-' :: rest =>
    let (start, value) := splitValue rest
    match Flag.startingWith start with
    | [] => .ok (ofStranger arg.toList)
    | [f] => .ok (ofName f value)
    | flags => .error (.ambiguous arg flags)
  | '-' :: c :: rest =>
    match Flag.ofLetter? c, rest with
    | some f, '=' :: assigned => .ok (ofAssigned f assigned)
    | some f, rest => .ok (ofLetters f rest)
    | none, _ => .ok (ofStranger arg.toList)
  | _ => .ok .plain

end Word

end Chip8.CommandLine
