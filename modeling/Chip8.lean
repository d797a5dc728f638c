import Chip8.CommandLine.Usage
import Chip8.Launch
import Chip8.Main
import Chip8.Proofs.Access
import Chip8.Proofs.CallStack
import Chip8.Proofs.Exec
import Chip8.Proofs.Pattern
import Chip8.Proofs.Cycle
import Chip8.Proofs.Host
import Chip8.Proofs.Operation
import Chip8.Proofs.Mirror
import Chip8.Proofs.Sprite
import Chip8.Proofs.Lockstep
import Chip8.Proofs.Memory
import Chip8.Proofs.Painting
import Chip8.Proofs.Loading
import Chip8.Proofs.Correspondence
import Chip8.Proofs.Determinism
import Chip8.Proofs.Calls
import Chip8.Proofs.Timers
import Chip8.Proofs.Footprint
import Chip8.Proofs.Pause
import Chip8.Proofs.Flow
import Chip8.Proofs.Event
import Chip8.Proofs.Plan
import Chip8.Proofs.CatchUp
import Chip8.Proofs.Countdown
import Chip8.Proofs.Quiet
import Chip8.Proofs.Accounting
import Chip8.Proofs.Keyboard
import Chip8.Proofs.TraceLog
import Chip8.Proofs.Picture
import Chip8.Proofs.PauseSwitch
import Chip8.Proofs.Arithmetic
import Chip8.Proofs.Cadence
import Chip8.Proofs.Grammar
import Chip8.Proofs.Startup
import Chip8.Proofs.Blocks
import Chip8.Proofs.Waiting
import Chip8.Proofs.Drawings
import Chip8.Proofs.Parity
import Chip8.Proofs.Bank
import Chip8.Proofs.BoundedList
import Chip8.Proofs.Numeral
import Chip8.Proofs.Keymap
import Chip8.Proofs.HexNumeral
import Chip8.Proofs.HexField
import Chip8.Proofs.Mnemonic
import Chip8.Proofs.Dump
import Chip8.Proofs.Palette
import Chip8.Proofs.Frames
import Chip8.Proofs.Held
import Chip8.Proofs.Request
