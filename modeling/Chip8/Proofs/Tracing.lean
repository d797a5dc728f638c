import Chip8.Proofs.Operation

/-!
# What is logged

Emulators that differ in what they have logged, or in whether they trace, come to the same on every
operation.

* `Emulator.SameState`: emulators that differ in these alone.
* `Emulator.sameState_trace`: a trace changes nothing else.
* `Emulator.SameState.step`, `Emulator.SameState.run`: one operation, and operations in order.
-/

namespace Chip8.Emulator

/-- The emulators agree on everything but what is logged. -/
structure SameState (e f : Emulator) : Prop where
  machine : e.machine = f.machine
  former : e.former = f.former
  decoder : e.decoder = f.decoder
  mode : e.mode = f.mode
  host : e.host = f.host

variable {e f g : Emulator}

theorem SameState.refl (e : Emulator) : e.SameState e := ⟨rfl, rfl, rfl, rfl, rfl⟩

theorem SameState.symm (h : e.SameState f) : f.SameState e :=
  ⟨h.machine.symm, h.former.symm, h.decoder.symm, h.mode.symm, h.host.symm⟩

theorem SameState.trans (h : e.SameState f) (h' : f.SameState g) : e.SameState g :=
  ⟨h.machine.trans h'.machine, h.former.trans h'.former, h.decoder.trans h'.decoder,
    h.mode.trans h'.mode, h.host.trans h'.host⟩

theorem sameState_trace (e : Emulator) (i : Instr) : (e.trace i).SameState e :=
  ⟨machine_trace e i, former_trace e i, decoder_trace e i, mode_trace e i, host_trace e i⟩

/-- The results are the same and leave emulators that agree but for what is logged. -/
def SameResult {α : Type} (r s : α × Emulator) : Prop := r.1 = s.1 ∧ r.2.SameState s.2

/-! ## Cycles -/

theorem SameState.machineAt (h : e.SameState f) (k : Nat) : e.machineAt k = f.machineAt k := by
  rw [Emulator.machineAt, Emulator.machineAt, h.former, h.machine]

theorem SameState.setMachineAt (h : e.SameState f) (k : Nat) (m : Machine) :
    (e.setMachineAt k m).SameState (f.setMachineAt k m) := by
  unfold Emulator.setMachineAt
  rw [← h.former]
  split
  · exact ⟨h.machine, rfl, h.decoder, h.mode, h.host⟩
  · exact ⟨rfl, rfl, h.decoder, h.mode, h.host⟩

theorem SameState.fetch (h : e.SameState f) : SameResult e.fetch f.fetch := by
  obtain ⟨m, former, decoder, mode, live, host, log⟩ := e
  obtain ⟨_, _, _, _, live', _, log'⟩ := f
  obtain ⟨rfl, rfl, rfl, rfl, rfl⟩ := h
  cases mode with
  | idle => exact ⟨rfl, rfl, rfl, rfl, rfl, rfl⟩
  | running =>
    simp only [Emulator.fetch]
    cases m.fetch <;> exact ⟨rfl, rfl, rfl, rfl, rfl, rfl⟩

theorem SameState.readWord (h : e.SameState f) (opcode : Int) :
    SameResult (e.readWord opcode) (f.readWord opcode) := by
  unfold Emulator.readWord
  rw [← h.decoder, ← h.machineAt]
  rcases (e.machineAt e.decoder.owner).decode opcode with ⟨_ | i, m⟩ <;>
    exact ⟨rfl, h.setMachineAt _ _⟩

theorem SameState.decode (h : e.SameState f) : SameResult e.decode f.decode := by
  unfold Emulator.decode
  rw [← h.mode, ← h.former, ← h.machine]
  cases e.mode with
  | idle => exact ⟨rfl, h⟩
  | running => exact h.readWord _

theorem SameState.perform (h : e.SameState f) (held : Held) :
    SameResult (e.perform held) (f.perform held) := by
  have hset := h.setMachineAt held.owner
  unfold Emulator.perform
  rw [← h.machineAt, ← h.host]
  cases held.instr.exec (e.machineAt held.owner) e.host with
  | error fault => exact ⟨rfl, h⟩
  | ok r =>
    have hmoved := hset r.1
    exact ⟨rfl, hmoved.machine, hmoved.former, hmoved.decoder, hmoved.mode, rfl⟩

theorem SameState.execute (h : e.SameState f) (held : Held) :
    SameResult (e.execute held) (f.execute held) := by
  have htrace : (e.trace held.instr).SameState (f.trace held.instr) :=
    (sameState_trace e _).trans (h.trans (sameState_trace f _).symm)
  exact htrace.perform held

theorem SameState.cycle (h : e.SameState f) : SameResult e.cycle f.cycle := by
  unfold Emulator.cycle
  have hfetch := h.fetch
  generalize e.fetch = r at hfetch ⊢
  generalize f.fetch = s at hfetch ⊢
  obtain ⟨r, e'⟩ := r
  obtain ⟨s, f'⟩ := s
  obtain ⟨rfl, hfetched⟩ := hfetch
  cases r with
  | error fault => exact ⟨rfl, hfetched⟩
  | ok =>
    have hdecode := SameState.decode hfetched
    dsimp only at hdecode ⊢
    generalize e'.decode = r at hdecode ⊢
    generalize f'.decode = s at hdecode ⊢
    obtain ⟨r, e''⟩ := r
    obtain ⟨s, f''⟩ := s
    obtain ⟨rfl, hdecoded⟩ := hdecode
    cases r with
    | error fault => exact ⟨rfl, hdecoded⟩
    | ok held => exact SameState.execute hdecoded held

/-! ## Operations -/

theorem SameState.load (h : e.SameState f) (program : List UInt8) :
    SameResult (e.load program) (f.load program) := by
  obtain ⟨m, former, decoder, mode, live, host, log⟩ := e
  obtain ⟨_, _, _, _, live', _, log'⟩ := f
  obtain ⟨rfl, rfl, rfl, rfl, rfl⟩ := h
  simp only [Emulator.load]
  split
  · cases Machine.loaded program <;> exact ⟨rfl, rfl, rfl, rfl, rfl, rfl⟩
  · exact ⟨rfl, rfl, rfl, rfl, rfl, rfl⟩

theorem SameState.step (h : e.SameState f) (op : Operation) :
    SameResult (e.step op) (f.step op) := by
  cases op with
  | load program =>
    obtain ⟨hr, hs⟩ := h.load program
    exact ⟨congrArg (·.mapError Failure.load) hr, hs⟩
  | cycle =>
    obtain ⟨hr, hs⟩ := h.cycle
    exact ⟨congrArg (·.mapError Failure.fault) hr, hs⟩
  | boot | tick | idle | resume | hold | refresh =>
    obtain ⟨m, former, decoder, mode, live, host, log⟩ := e
    obtain ⟨_, _, _, _, live', _, log'⟩ := f
    obtain ⟨rfl, rfl, rfl, rfl, rfl⟩ := h
    exact ⟨rfl, rfl, rfl, rfl, rfl, rfl⟩

theorem SameState.run (h : e.SameState f) (ops : List Operation) :
    SameResult (e.run ops) (f.run ops) := by
  induction ops generalizing e f with
  | nil => exact ⟨rfl, h⟩
  | cons op ops ih =>
    obtain ⟨hr, hs⟩ := h.step op
    obtain ⟨hrs, hss⟩ := ih hs
    exact ⟨by rw [Emulator.run, Emulator.run, hr, hrs], hss⟩

end Chip8.Emulator
