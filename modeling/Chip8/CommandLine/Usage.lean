import Chip8.CommandLine.Parse

/-!
# What the command line answers

The texts that are written in place of a run, on a terminal of 80 columns, and the exit code.

* `Stop.answer`: the help text on the output, or the complaint behind the usage text on the error
  output.
-/

namespace Chip8.CommandLine

/-- The name of the program. -/
def programName : String := "monochip.py"

/-- The usage text. -/
def usageText : String :=
  "usage: " ++ programName ++
    " [-h] [-c CLOCK_SPEED] [-r \x7bpygame,null\x7d] [-s SCALE]\n" ++
  "                   [-k KEYMAP] [--palette PALETTE]\n" ++
  "                   [-l \x7bdebug,info,warning,error\x7d] [-d]\n" ++
  "                   filename\n"

/-- The help text. -/
def helpText : String :=
  usageText ++
  "\n" ++
  "positional arguments:\n" ++
  "  filename              ROM to execute (normally ending in .ch8 or .c8)\n" ++
  "\n" ++
  "options:\n" ++
  "  -h, --help            show this help message and exit\n" ++
  "  -c CLOCK_SPEED, --clock_speed CLOCK_SPEED\n" ++
  "                        set the CPU speed in operations/second (default 700, 0\n" ++
  "                        = uncapped)\n" ++
  "  -r \x7bpygame,null\x7d, --renderer \x7bpygame,null\x7d\n" ++
  "                        set the display and input systems (pygame by default,\n" ++
  "                        null runs headless)\n" ++
  "  -s SCALE, --scale SCALE\n" ++
  "                        set the window width in PyGame mode (default 512)\n" ++
  "  -k KEYMAP, --keymap KEYMAP\n" ++
  "                        redefine the 16 keyscan codes. Separate each decimal\n" ++
  "                        with a comma. Escape (27) and P (112) are reserved\n" ++
  "  --palette PALETTE     redefine the background and foreground colours in\n" ++
  "                        comma-separated hex, e.g. 000000,33FF66\n" ++
  "  -l \x7bdebug,info,warning,error\x7d, --log_level \x7bdebug,info,warning,error\x7d\n" ++
  "                        set how much is logged (default info)\n" ++
  "  -d, --debug           enable live instruction tracing (implies --log_level\n" ++
  "                        debug). Slows CPU execution\n"

/-- What is written in place of a run, and how the program exits. -/
structure Answer where
  /-- What goes to the output. -/
  output : String
  /-- What goes to the error output. -/
  errors : String
  /-- The exit code. -/
  code : Nat
deriving DecidableEq, Repr

/-- The answer to a command line that gives no settings. -/
def Stop.answer : Stop → Answer
  | .help => { output := helpText, errors := "", code := 0 }
  | .error e =>
    let complaint := programName ++ ": error: " ++ e.message ++ "\n"
    { output := "", errors := usageText ++ complaint, code := 2 }

end Chip8.CommandLine
