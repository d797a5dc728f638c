import Chip8.Proofs.Cycle
import Chip8.Proofs.Host

/-!
# Runs of operations

What can happen to an emulator from outside, one operation after the other. An operation that fails
stops none of those behind it.

* `Emulator.step`, `Emulator.run`: one operation, and operations in order.
* `Emulator.run_append`: a run goes on where another stopped.
* `Emulator.run_invariant`: what every operation keeps, every run keeps.
* `Emulator.Throughout`: a property that holds at all times of a run.
* `Emulator.step_wellFormed`: every operation keeps the machine well-formed, and the decoder bound
  to it.
* `Emulator.run_wellFormed`: that is so of a new emulator, and stays so whatever happens.
-/

namespace Chip8

/-- What can happen to an emulator. -/
inductive Operation where
  /-- A program is loaded. -/
  | load (program : List UInt8)
  /-- The machine is replaced by a booted one. -/
  | boot
  /-- An instruction is carried out. -/
  | cycle
  /-- The timers tick. -/
  | tick
  /-- Instructions are put off. -/
  | idle
  /-- Instructions are carried out again. -/
  | resume
  /-- The held keys change. -/
  | hold (held : Vector Bool 16)
  /-- The presenter is refreshed. -/
  | refresh
deriving DecidableEq

/-- The operation puts another machine in place of the present one. -/
def Operation.Replaces : Operation → Prop
  | .load _ | .boot => True
  | _ => False

/-- Why an operation fails. -/
inductive Failure where
  /-- The program is refused. -/
  | load (error : LoadError)
  /-- The machine cannot go on. -/
  | fault (fault : Fault)
  /-- The presenter cannot paint. -/
  | paint (error : Presenter.Error)
deriving DecidableEq, Repr

namespace Emulator

/-- Changes which keys are held. -/
def hold (e : Emulator) (held : Vector Bool 16) : Emulator :=
  e.setKeypad { e.host.keypad with held }

/-- One operation. -/
def step (e : Emulator) : Operation → Except Failure Unit × Emulator
  | .load program => ((e.load program).1.mapError .load, (e.load program).2)
  | .boot => (.ok (), e.boot)
  | .cycle => (e.cycle.1.mapError .fault, e.cycle.2)
  | .tick => (.ok (), e.tick)
  | .idle => (.ok (), e.setIdle)
  | .resume => (.ok (), e.resume)
  | .hold held => (.ok (), e.hold held)
  | .refresh => ((e.refresh.1.mapError Failure.paint).map fun _ => (), e.refresh.2)

/-- Operations in order, with what each came to. -/
def run (e : Emulator) : List Operation → List (Except Failure Unit) × Emulator
  | [] => ([], e)
  | op :: ops =>
    ((e.step op).1 :: ((e.step op).2.run ops).1, ((e.step op).2.run ops).2)

theorem run_append (e : Emulator) (ops ops' : List Operation) :
    e.run (ops ++ ops') =
      ((e.run ops).1 ++ ((e.run ops).2.run ops').1, ((e.run ops).2.run ops').2) := by
  induction ops generalizing e with
  | nil => rfl
  | cons op ops ih => rw [List.cons_append, run, ih, run, List.cons_append]

/-- What every operation keeps, every run keeps. -/
theorem run_invariant {P : Emulator → Prop} (hstep : ∀ e op, P e → P (e.step op).2)
    {e : Emulator} (h : P e) (ops : List Operation) : P (e.run ops).2 := by
  induction ops generalizing e with
  | nil => exact h
  | cons op ops ih => exact ih (hstep e op h)

/-- The property holds at first and after each of the operations. -/
def Throughout (P : Emulator → Prop) (e : Emulator) (ops : List Operation) : Prop :=
  ∀ pre, pre <+: ops → P (e.run pre).2

theorem Throughout.head {P : Emulator → Prop} {e : Emulator} {ops : List Operation}
    (h : e.Throughout P ops) : P e := h [] List.nil_prefix

theorem throughout_nil {P : Emulator → Prop} {e : Emulator} : e.Throughout P [] ↔ P e := by
  constructor
  · exact Throughout.head
  · intro h pre hpre
    rw [List.prefix_nil.1 hpre]
    exact h

theorem throughout_cons {P : Emulator → Prop} {e : Emulator} {op : Operation}
    {ops : List Operation} :
    e.Throughout P (op :: ops) ↔ P e ∧ (e.step op).2.Throughout P ops := by
  constructor
  · intro h
    refine ⟨h.head, fun pre hpre => ?_⟩
    exact h (op :: pre) (List.cons_prefix_cons.2 ⟨rfl, hpre⟩)
  · rintro ⟨hhead, htail⟩ pre hpre
    rcases List.prefix_cons_iff.1 hpre with rfl | ⟨rest, rfl, hrest⟩
    · exact hhead
    · exact htail rest hrest

/-! ## Well-formed emulators -/

variable {e : Emulator}

theorem WellFormed.advance (h : e.WellFormed) : e.advance.WellFormed :=
  ⟨h.machine.advance, h.decoder⟩

theorem WellFormed.trace (h : e.WellFormed) (i : Instr) : (e.trace i).WellFormed where
  machine := by
    rw [machine_trace]
    exact h.machine
  decoder := by
    rw [decoder_trace, former_trace]
    exact h.decoder

theorem cycle_wellFormed (h : e.WellFormed) : e.cycle.2.WellFormed := by
  cases hr : e.mode with
  | idle =>
    rw [cycle_idle hr]
    exact h.trace _
  | running =>
    have hc := cycle_cycled h hr
    generalize e.cycle = r at hc ⊢
    cases hc with
    | undecoded => exact h.advance
    | overflow i | underflow i => exact h.advance.trace i
    | done i hi m hcall hret hexec hm => exact ⟨hm, (h.advance.trace i).decoder⟩

/-- A decoder that reads for the new machine comes with it, whatever the one before it read for. -/
theorem replace_wellFormed (e : Emulator) {m : Machine} (hm : m.WellFormed) :
    (e.replace m).WellFormed :=
  ⟨hm, by rw [replace, Array.size_push]⟩

theorem load_wellFormed (h : e.WellFormed) (program : List UInt8) :
    (e.load program).2.WellFormed := by
  unfold load
  split
  · split
    · exact replace_wellFormed e Machine.wellFormed_booted
    · rename_i m hm
      have hreplaced := replace_wellFormed e (Machine.wellFormed_loaded hm)
      exact ⟨hreplaced.machine, hreplaced.decoder⟩
  · exact h

theorem step_wellFormed (h : e.WellFormed) (op : Operation) : (e.step op).2.WellFormed := by
  cases op with
  | load program => exact load_wellFormed h program
  | boot => exact replace_wellFormed e Machine.wellFormed_booted
  | cycle => exact cycle_wellFormed h
  | tick => exact ⟨h.machine.tick, h.decoder⟩
  | idle | resume | hold | refresh => exact ⟨h.machine, h.decoder⟩

theorem WellFormed.run (h : e.WellFormed) (ops : List Operation) : (e.run ops).2.WellFormed :=
  run_invariant (P := WellFormed) (fun _ op h => step_wellFormed h op) h ops

/-- The decoder reads for the present machine, so that what is decoded is bound to it. -/
structure BindsPresent (e : Emulator) : Prop where
  /-- The decoder reads for the present machine. -/
  decoder : e.decoder.owner = e.former.size
  /-- An instruction that is decoded now is bound to the present machine. -/
  owner : ∀ held, e.decode.1 = .ok held → held.owner = e.former.size
  /-- No former machine is changed. -/
  former : e.decode.2.former = e.former

theorem WellFormed.bindsPresent (h : e.WellFormed) : e.BindsPresent := by
  cases hr : e.mode with
  | idle =>
    have hd : e.decode = (.ok ⟨.idle, e.former.size⟩, e) := by simp only [decode, hr]
    refine ⟨h.decoder, fun held hheld => ?_, by rw [hd]⟩
    rw [hd] at hheld
    cases hheld
    rfl
  | running =>
    have hd := decode_running h.decoder hr
    unfold Machine.decode at hd
    refine ⟨h.decoder, fun held hheld => ?_, ?_⟩
    · rw [hd] at hheld
      cases hi : Instr.ofWord? e.machine.opcode with
      | none =>
        simp only [hi] at hheld
        cases hheld
      | some i =>
        simp only [hi] at hheld
        cases hheld
        rfl
    · rw [hd]
      cases Instr.ofWord? e.machine.opcode <;> rfl

/-- **Well-formedness.** Whatever happens to a new emulator, its machine stays well-formed: sixteen
registers of a byte, index, instruction pointer and word of 16 bits, timers of a byte, all of
memory, sixteen stack slots of 16 bits with no more of them live, and a full screen of pixels that
are clear or set. The decoder reads for that machine, however often it was replaced, and what is
decoded is bound to it. -/
theorem run_wellFormed (host : Host) (live : Bool) (log : Array LogEntry) (ops : List Operation) :
    let e := (run { host, live, log } ops).2
    e.machine.WellFormed ∧ e.machine.memory.size = 4096 ∧ e.machine.stack.slots.size = 16 ∧
      e.machine.stack.depth ≤ 16 ∧ e.machine.screen.cells.size = 2048 ∧ e.BindsPresent := by
  intro e
  have hnew : ({ host, live, log } : Emulator).WellFormed := ⟨Machine.wellFormed_booted, rfl⟩
  have h : e.WellFormed := hnew.run ops
  have hm := h.machine
  exact ⟨hm, hm.memory_size, hm.size_slots, hm.depth_le, hm.size_cells, h.bindsPresent⟩

end Emulator

end Chip8
