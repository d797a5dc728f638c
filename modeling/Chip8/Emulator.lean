import Chip8.Log
import Chip8.Machine.Dump
import Chip8.Machine.Exec

/-!
# Emulators

An emulator owns a machine for as long as a program runs. It is either running or idle: while it is
idle nothing is fetched and every instruction is the idle placeholder, but timers still tick.
Loading a program replaces the machine, and the decoder with it. A decoder reads for one machine
only, and an instruction that is held stays bound to the machine for which it was decoded, so the
former machines are kept. All of them are known by their numbers.

Operations that can fail give the emulator as the failure leaves it.

* `Emulator.machineAt`, `Emulator.setMachineAt`: the machines by their numbers.
* `Emulator.WellFormed`: what holds of every emulator that there can be.
* `Emulator.cycle`: fetch, decode and execute one instruction.
* `Emulator.load`: refuses a program that does not fit before anything changes.
* `Emulator.tick`, `Emulator.setIdle`, `Emulator.resume`: the signals of a scheduler.
-/

namespace Chip8

/-- Whether instructions are carried out. -/
inductive Mode where
  /-- Instructions are carried out. -/
  | running
  /-- Instructions are put off. -/
  | idle
deriving DecidableEq, Repr

/-- Reads instructions for a machine. -/
structure Decoder where
  /-- How many machines came before the one that it reads for. -/
  owner : Nat := 0
deriving DecidableEq, Repr

/-- A machine with its host. -/
structure Emulator where
  /-- The machine. -/
  machine : Machine := .booted
  /-- The machines that the present one replaced, oldest first. -/
  former : Array Machine := #[]
  /-- What reads its instructions. -/
  decoder : Decoder := {}
  /-- Whether instructions are carried out. -/
  mode : Mode := .running
  /-- Whether each instruction is logged before it takes effect. -/
  live : Bool := false
  /-- The host side. -/
  host : Host
  /-- What was reported, oldest first. -/
  log : Array LogEntry := #[]

/-- An instruction bound to a machine. -/
structure Held where
  /-- The instruction. -/
  instr : Instr
  /-- How many machines came before the one it is bound to. -/
  owner : Nat

/-- Why a program is not loaded. -/
inductive LoadError where
  /-- The program has more bytes than there is room for. -/
  | tooLong (size : Nat)
  /-- The memory refuses. -/
  | memory (error : Memory.Error)
deriving DecidableEq, Repr

/-- The text of an error. -/
def LoadError.message : LoadError → String
  | .tooLong size =>
    "ROM is " ++ toString size ++ " bytes, but only " ++ toString Machine.programCapacity ++
      " bytes are available from 0x" ++ Hex.padded 3 programBase
  | .memory error => error.message

namespace Emulator

/-- Adds an entry to the log. -/
def report (e : Emulator) (level : LogLevel) (source : LogSource) (text : String) : Emulator :=
  { e with log := e.log.push { level, source, text } }

/-- The machine with a number. The former machines are numbered in order, and the present one is
behind them. -/
def machineAt (e : Emulator) (k : Nat) : Machine := e.former[k]?.getD e.machine

/-- Changes the machine with a number. -/
def setMachineAt (e : Emulator) (k : Nat) (m : Machine) : Emulator :=
  if k < e.former.size then { e with former := e.former.setIfInBounds k m }
  else { e with machine := m }

/-- What holds of every emulator that there can be: its machine is well-formed, and that is the
machine that its decoder reads for. -/
structure WellFormed (e : Emulator) : Prop where
  /-- The machine is well-formed. -/
  machine : e.machine.WellFormed
  /-- The decoder reads for the machine. -/
  decoder : e.decoder.owner = e.former.size

/-- Takes a new machine in place of the present one, and a decoder that reads for it. -/
def replace (e : Emulator) (m : Machine) : Emulator :=
  { e with
    machine := m
    former := e.former.push e.machine
    decoder := { owner := e.former.size + 1 }
    mode := .running }

/-- Takes a booted machine in place of the present one, and runs. -/
def boot (e : Emulator) : Emulator := e.replace .booted

/-- Takes a machine with a program in its memory in place of the present one, and runs. -/
def load (e : Emulator) (program : List UInt8) : Except LoadError Unit × Emulator :=
  if e.machine.memory.Fits programBase program.length then
    match Machine.loaded program with
    | .error error => (.error (.memory error), e.boot)
    | .ok m =>
      (.ok (), (e.replace m).report .info .emulator
        ("Loaded " ++ toString program.length ++ " byte ROM at 0x" ++ Hex.padded 3 programBase))
  else (.error (.tooLong program.length), e)

/-- Puts instructions off. -/
def setIdle (e : Emulator) : Emulator := { e with mode := .idle }

/-- Carries instructions out again. -/
def resume (e : Emulator) : Emulator := { e with mode := .running }

/-- Whether instructions are put off. -/
def isIdle (e : Emulator) : Bool := e.mode = .idle

/-- One step of the timers. -/
def tick (e : Emulator) : Emulator := { e with machine := e.machine.tick }

/-- The same emulator with another keypad. -/
def setKeypad (e : Emulator) (keypad : Keypad) : Emulator :=
  { e with host := { e.host with keypad } }

/-- The same emulator with another presenter. -/
def setPresenter (e : Emulator) (presenter : Presenter) : Emulator :=
  { e with host := { e.host with presenter } }

/-- Fetches the word at the instruction pointer, unless idle. -/
def fetch (e : Emulator) : Except Fault Unit × Emulator :=
  match e.mode with
  | .idle => (.ok (), e)
  | .running =>
    match e.machine.fetch with
    | .error f => (.error f, e)
    | .ok machine => (.ok (), { e with machine })

/-- Reads a word for the machine of the decoder, and binds the instruction to that machine. -/
def readWord (e : Emulator) (opcode : Int) : Except Fault Held × Emulator :=
  match (e.machineAt e.decoder.owner).decode opcode with
  | (.error f, machine) => (.error f, e.setMachineAt e.decoder.owner machine)
  | (.ok instr, machine) => (.ok ⟨instr, e.decoder.owner⟩, e.setMachineAt e.decoder.owner machine)

/-- The next instruction: the one that the decoder reads from the fetched word of the present
machine, or while idle the placeholder, which is bound to the present machine. -/
def decode (e : Emulator) : Except Fault Held × Emulator :=
  match e.mode with
  | .idle => (.ok ⟨.idle, e.former.size⟩, e)
  | .running => e.readWord e.machine.opcode

/-- Logs the present machine and an instruction about to be executed, if tracing is live. -/
def trace (e : Emulator) (i : Instr) : Emulator :=
  if e.live then e.report .debug .trace (e.machine.dump i.text) else e

/-- Executes an instruction on the machine that it is bound to. -/
def perform (e : Emulator) (h : Held) : Except Fault Unit × Emulator :=
  match h.instr.exec (e.machineAt h.owner) e.host with
  | .error f => (.error f, e)
  | .ok (machine, host) => (.ok (), { e.setMachineAt h.owner machine with host })

/-- Executes an instruction, after it is traced. -/
def execute (e : Emulator) (h : Held) : Except Fault Unit × Emulator := (e.trace h.instr).perform h

/-- Fetches, decodes and executes one instruction. -/
def cycle (e : Emulator) : Except Fault Unit × Emulator :=
  match e.fetch with
  | (.error f, e) => (.error f, e)
  | (.ok (), e) =>
    match e.decode with
    | (.error f, e) => (.error f, e)
    | (.ok h, e) => e.execute h

/-- Carries out cycles until one fails. -/
def cycles (e : Emulator) : Nat → Except Fault Unit × Emulator
  | 0 => (.ok (), e)
  | n + 1 =>
    match e.cycle with
    | (.error f, e) => (.error f, e)
    | (.ok (), e) => e.cycles n

/-- Sets the fetched word, then decodes and executes. Gives the instruction. -/
def dispatch (e : Emulator) (opcode : Int) : Except Fault Instr × Emulator :=
  match { e with machine := { e.machine with opcode } }.decode with
  | (.error f, e) => (.error f, e)
  | (.ok h, e) =>
    match e.execute h with
    | (.error f, e) => (.error f, e)
    | (.ok (), e) => (.ok h.instr, e)

/-- Refreshes the presenter with the screen of the machine. -/
def refresh (e : Emulator) : Except Presenter.Error Bool × Emulator :=
  let (painted, presenter) := e.host.presenter.refresh e.machine.screen
  (painted, e.setPresenter presenter)

/-! ## Machines by their numbers -/

variable {e : Emulator} {k : Nat} {m : Machine}

theorem machineAt_of_le (h : e.former.size ≤ k) : e.machineAt k = e.machine := by
  rw [machineAt, Array.getElem?_eq_none h, Option.getD_none]

theorem machineAt_of_getElem? (h : e.former[k]? = some m) : e.machineAt k = m := by
  rw [machineAt, h, Option.getD_some]

theorem getElem?_former (h : k < e.former.size) : e.former[k]? = some (e.machineAt k) := by
  rw [machineAt, Array.getElem?_eq_getElem h, Option.getD_some]

theorem setMachineAt_of_le (h : e.former.size ≤ k) :
    e.setMachineAt k m = { e with machine := m } :=
  if_neg (Nat.not_lt.2 h)

theorem setMachineAt_of_lt (h : k < e.former.size) :
    e.setMachineAt k m = { e with former := e.former.setIfInBounds k m } :=
  if_pos h

@[simp] theorem mode_setMachineAt : (e.setMachineAt k m).mode = e.mode := by
  unfold setMachineAt
  split <;> rfl

@[simp] theorem host_setMachineAt : (e.setMachineAt k m).host = e.host := by
  unfold setMachineAt
  split <;> rfl

@[simp] theorem log_setMachineAt : (e.setMachineAt k m).log = e.log := by
  unfold setMachineAt
  split <;> rfl

@[simp] theorem decoder_setMachineAt : (e.setMachineAt k m).decoder = e.decoder := by
  unfold setMachineAt
  split <;> rfl

@[simp] theorem size_former_setMachineAt : (e.setMachineAt k m).former.size = e.former.size := by
  unfold setMachineAt
  split
  · exact Array.size_setIfInBounds
  · rfl

end Emulator

end Chip8
