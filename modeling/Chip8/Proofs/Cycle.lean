import Chip8.Emulator
import Chip8.Proofs.Exec
import Chip8.Proofs.Host
import Chip8.Proofs.Pattern

/-!
# One cycle

A cycle of a running emulator fetches a word, moves the instruction pointer on, and then either
finds no instruction or carries one out. `Emulator.Cycled` lists what it can come to, and the
statements about single cycles of well-formed emulators are read off it.

* `Machine.advance`, `Emulator.advance`: the state in which the instruction takes effect.
* `Emulator.cycle_invariant`: what the parts of a cycle keep, the cycle keeps.
* `Emulator.cycle_cycled`: a cycle comes to one of the outcomes of `Emulator.Cycled`.
* `Emulator.cycle_undecoded`, `Emulator.cycle_decoded`: a cycle by what the fetched word denotes.
* `Emulator.cycle_idle`: a cycle of an idle emulator.
* `Emulator.Cycled.fault_iff`, `Emulator.Cycled.failed`: which fault it ends with, and what a fault
  leaves.
* `Emulator.cycle_faults`: exactly when a cycle fails, with which fault, and what it leaves.
-/

namespace Chip8

/-- The machine when its next instruction takes effect: the word is fetched and the instruction
pointer has moved on. -/
def Machine.advance (m : Machine) : Machine :=
  { m with opcode := m.wordAt m.ip, ip := word (m.ip + 2) }

theorem Machine.WellFormed.advance {m : Machine} (h : m.WellFormed) : m.advance.WellFormed := by
  have hw : 0 ≤ (m.wordAt m.ip : Int) ∧ (m.wordAt m.ip : Int) < 0x10000 := by
    have := m.wordAt_lt m.ip
    omega
  exact (h.setOpcode hw).setIp (word_bounds _)

namespace Emulator

variable {e : Emulator}

/-- The word that the instruction pointer points at. -/
def word (e : Emulator) : Nat := e.machine.wordAt e.machine.ip

/-- The emulator with its machine advanced. -/
def advance (e : Emulator) : Emulator := { e with machine := e.machine.advance }

theorem word_lt (e : Emulator) : e.word < 0x10000 := e.machine.wordAt_lt _

/-! ## Traces only grow the log -/

@[simp] theorem machine_trace (e : Emulator) (i : Instr) : (e.trace i).machine = e.machine := by
  unfold trace
  split <;> rfl

@[simp] theorem former_trace (e : Emulator) (i : Instr) : (e.trace i).former = e.former := by
  unfold trace
  split <;> rfl

@[simp] theorem decoder_trace (e : Emulator) (i : Instr) : (e.trace i).decoder = e.decoder := by
  unfold trace
  split <;> rfl

@[simp] theorem mode_trace (e : Emulator) (i : Instr) : (e.trace i).mode = e.mode := by
  unfold trace
  split <;> rfl

@[simp] theorem live_trace (e : Emulator) (i : Instr) : (e.trace i).live = e.live := by
  unfold trace
  split <;> rfl

@[simp] theorem host_trace (e : Emulator) (i : Instr) : (e.trace i).host = e.host := by
  unfold trace
  split <;> rfl

/-- Of the entries kept of a log, a report adds its own if that is kept. -/
theorem filter_report (e : Emulator) (level : LogLevel) (source : LogSource) (text : String)
    (keep : LogEntry → Bool) :
    (e.report level source text).log.toList.filter keep =
      e.log.toList.filter keep ++ [(⟨level, source, text⟩ : LogEntry)].filter keep := by
  rw [report, Array.toList_push, List.filter_append]

/-! ## What a cycle keeps -/

/-- What is kept by a change of a machine, by a trace and by performing an instruction is kept by a
cycle. -/
theorem cycle_invariant {P : Emulator → Prop}
    (hmachine : ∀ e k machine, P e → P (e.setMachineAt k machine))
    (htrace : ∀ e i, P e → P (e.trace i)) (hperform : ∀ e held, P e → P (e.perform held).2)
    (h : P e) : P e.cycle.2 := by
  have hfetch : P e.fetch.2 := by
    unfold fetch
    split
    · exact h
    · split
      · exact h
      · rename_i machine _
        have hpresent := hmachine e e.former.size machine h
        rwa [setMachineAt_of_le (Nat.le_refl _)] at hpresent
  have hdecode : P e.fetch.2.decode.2 := by
    unfold decode
    split
    · exact hfetch
    · unfold readWord
      split <;> exact hmachine _ _ _ hfetch
  unfold cycle
  rcases hf : e.fetch with ⟨f | ⟨⟩, fetched⟩
  · rwa [hf] at hfetch
  · rw [hf] at hdecode
    dsimp only at hdecode ⊢
    rcases hd : fetched.decode with ⟨f | held, decoded⟩
    · rwa [hd] at hdecode
    · rw [hd] at hdecode
      exact hperform _ _ (htrace _ _ hdecode)

/-! ## Cycles by what is decoded -/

/-- An instruction bound to the present machine acts on it. -/
theorem perform_present {h : Held} (hh : h.owner = e.former.size) :
    e.perform h =
      match h.instr.exec e.machine e.host with
      | .error f => (.error f, e)
      | .ok (machine, host) => (.ok (), { e with machine, host }) := by
  have hle : e.former.size ≤ h.owner := Nat.le_of_eq hh.symm
  cases hexec : h.instr.exec e.machine e.host <;>
    simp only [perform, machineAt_of_le hle, setMachineAt_of_le hle, hexec]

/-- An instruction bound to the present machine is traced and carried out. -/
theorem execute_present (i : Instr) :
    e.execute ⟨i, e.former.size⟩ =
      match i.exec e.machine e.host with
      | .error f => (.error f, e.trace i)
      | .ok (machine, host) => (.ok (), { e.trace i with machine, host }) := by
  have howner : (⟨i, e.former.size⟩ : Held).owner = (e.trace i).former.size := by
    rw [former_trace]
  rw [execute, perform_present howner, machine_trace, host_trace]

theorem fetch_running (hm : e.machine.memory.size = memorySize) (hr : e.mode = .running) :
    e.fetch = (.ok (), { e with machine := { e.machine with opcode := e.word } }) := by
  unfold fetch
  split
  · rename_i hidle
    rw [hr] at hidle
    cases hidle
  · rw [Machine.fetch_eq hm]
    rfl

/-- A decoder that reads for the present machine reads from it and binds to it. -/
theorem decode_running (hd : e.decoder.owner = e.former.size) (hr : e.mode = .running) :
    e.decode =
      match e.machine.decode e.machine.opcode with
      | (.error f, machine) => (.error f, { e with machine })
      | (.ok instr, machine) => (.ok ⟨instr, e.former.size⟩, { e with machine }) := by
  have hle : e.former.size ≤ e.former.size := Nat.le_refl _
  rcases hread : e.machine.decode e.machine.opcode with ⟨f | instr, moved⟩ <;>
    simp only [decode, hr, readWord, hd, machineAt_of_le hle, setMachineAt_of_le hle, hread]

theorem cycle_idle (h : e.mode = .idle) : e.cycle = (.ok (), e.trace .idle) := by
  have hfetch : e.fetch = (.ok (), e) := by simp only [fetch, h]
  have hdecode : e.decode = (.ok ⟨.idle, e.former.size⟩, e) := by simp only [decode, h]
  have hexec : Instr.idle.exec e.machine e.host = .ok (e.machine, e.host) := rfl
  rw [cycle, hfetch]
  simp only [hdecode]
  rw [execute_present, hexec]
  simp only [← machine_trace e .idle, ← host_trace e .idle]

/-- A word that denotes nothing fails the cycle, behind the word. -/
theorem cycle_undecoded (he : e.WellFormed) (hr : e.mode = .running)
    (hw : Instr.ofWord? e.word = none) :
    e.cycle = (.error (.decode e.word e.machine.ip), e.advance) := by
  have hdecode :=
    decode_running (e := { e with machine := { e.machine with opcode := e.word } }) he.decoder hr
  rw [cycle, fetch_running he.machine.memory_size hr]
  simp only [hdecode, Machine.decode, hw]
  rfl

/-- A word that denotes an instruction carries it out on the advanced machine. -/
theorem cycle_decoded (he : e.WellFormed) (hr : e.mode = .running) {i : Instr}
    (hi : Instr.ofWord? e.word = some i) :
    e.cycle =
      match i.exec e.machine.advance e.host with
      | .error f => (.error f, e.advance.trace i)
      | .ok (machine, host) => (.ok (), { e.advance.trace i with machine, host }) := by
  have hdecode :=
    decode_running (e := { e with machine := { e.machine with opcode := e.word } }) he.decoder hr
  rw [cycle, fetch_running he.machine.memory_size hr]
  simp only [hdecode, Machine.decode, hi]
  exact execute_present (e := e.advance) i

/-! ## What a cycle comes to -/

/-- What a cycle of a running emulator comes to. -/
inductive Cycled (e : Emulator) : Except Fault Unit × Emulator → Prop where
  /-- The word is no instruction. -/
  | undecoded (hw : ∀ k : Kind, ¬ k.Matches e.word) :
    Cycled e (.error (.decode e.word e.machine.ip), e.advance)
  /-- A call finds the stack full. -/
  | overflow (i : Instr) (hi : Instr.ofWord? e.word = some i) (hk : i.kind = .call)
      (hd : e.machine.stack.depth = stackSize) :
    Cycled e (.error (.stack .overflow), e.advance.trace i)
  /-- A return finds the stack empty. -/
  | underflow (i : Instr) (hi : Instr.ofWord? e.word = some i) (hk : i.kind = .ret)
      (hd : e.machine.stack.depth = 0) :
    Cycled e (.error (.stack .underflow), e.advance.trace i)
  /-- The instruction goes through. -/
  | done (i : Instr) (hi : Instr.ofWord? e.word = some i) (m : Machine)
      (hcall : i.kind = .call → e.machine.stack.depth < stackSize)
      (hret : i.kind = .ret → 0 < e.machine.stack.depth)
      (hexec : i.exec e.machine.advance e.host = .ok (m, i.touch e.host)) (hm : m.WellFormed) :
    Cycled e (.ok (), { e.advance.trace i with machine := m, host := i.touch e.host })

theorem cycle_cycled (he : e.WellFormed) (hr : e.mode = .running) : Cycled e e.cycle := by
  cases hi : Instr.ofWord? e.word with
  | none =>
    rw [cycle_undecoded he hr hi]
    exact .undecoded ((Instr.ofWord?_eq_none_iff e.word_lt).1 hi)
  | some i =>
    rw [cycle_decoded he hr hi]
    have hx := Instr.exec_executed (i := i) he.machine.advance e.host
    generalize hexec : i.exec e.machine.advance e.host = r at hx ⊢
    cases hx with
    | overflow hk hd => exact .overflow i hi hk hd
    | underflow hk hd => exact .underflow i hi hk hd
    | done m hcall hret hm' => exact .done i hi m hcall hret hexec hm'

/-- A cycle that fails leaves everything but the fetched word and the instruction pointer. -/
theorem Cycled.failed {r : Except Fault Unit × Emulator} (hc : Cycled e r) {f : Fault}
    (hf : r.1 = .error f) :
    (f = .decode e.word e.machine.ip ∨ f = .stack .overflow ∨ f = .stack .underflow) ∧
      r.2.machine = e.machine.advance ∧ r.2.mode = e.mode ∧ r.2.host = e.host ∧
      r.2.former = e.former ∧ r.2.decoder = e.decoder := by
  cases hc with
  | undecoded hw =>
    cases hf
    exact ⟨.inl rfl, rfl, rfl, rfl, rfl, rfl⟩
  | overflow i hi hk hd =>
    cases hf
    exact ⟨.inr (.inl rfl), machine_trace .., mode_trace .., host_trace .., former_trace ..,
      decoder_trace ..⟩
  | underflow i hi hk hd =>
    cases hf
    exact ⟨.inr (.inr rfl), machine_trace .., mode_trace .., host_trace .., former_trace ..,
      decoder_trace ..⟩
  | done => cases hf

/-- Which fault a cycle ends with, if any. -/
theorem Cycled.fault_iff {r : Except Fault Unit × Emulator} (hc : Cycled e r) :
    (r.1 = .error (.decode e.word e.machine.ip) ↔ ∀ k : Kind, ¬ k.Matches e.word) ∧
    (r.1 = .error (.stack .overflow) ↔
      Kind.call.Matches e.word ∧ e.machine.stack.depth = stackSize) ∧
    (r.1 = .error (.stack .underflow) ↔
      Kind.ret.Matches e.word ∧ e.machine.stack.depth = 0) := by
  cases hc with
  | undecoded hw =>
    exact ⟨⟨fun _ => hw, fun _ => rfl⟩, ⟨nofun, fun h => absurd h.1 (hw _)⟩,
      ⟨nofun, fun h => absurd h.1 (hw _)⟩⟩
  | overflow i hi hk hd =>
    have hmatch := Instr.matches_of_ofWord? e.word_lt hi
    have hcall : Kind.call.Matches e.word := hk ▸ hmatch
    refine ⟨⟨nofun, fun h => absurd hmatch (h _)⟩, ⟨fun _ => ⟨hcall, hd⟩, fun _ => rfl⟩,
      ⟨nofun, fun h => ?_⟩⟩
    rw [hd] at h
    exact absurd h.2 (by decide)
  | underflow i hi hk hd =>
    have hmatch := Instr.matches_of_ofWord? e.word_lt hi
    have hret : Kind.ret.Matches e.word := hk ▸ hmatch
    refine ⟨⟨nofun, fun h => absurd hmatch (h _)⟩, ⟨nofun, fun h => ?_⟩,
      ⟨fun _ => ⟨hret, hd⟩, fun _ => rfl⟩⟩
    rw [hd] at h
    exact absurd h.2 (by decide)
  | done i hi m hcall hret hexec hm' =>
    have hmatch := Instr.matches_of_ofWord? e.word_lt hi
    refine ⟨⟨nofun, fun h => absurd hmatch (h _)⟩, ⟨nofun, fun h => ?_⟩, ⟨nofun, fun h => ?_⟩⟩
    · have := hcall (hmatch.unique h.1)
      omega
    · have := hret (hmatch.unique h.1)
      omega

/-- **Faults.** A cycle of a running emulator that is well-formed fails in three cases: its word
matches no pattern, it is a call on a full stack, or it is a return on an empty one. A cycle that
fails leaves the fetched word and the instruction pointer behind it, and changes nothing else. -/
theorem cycle_faults (he : e.WellFormed) (hr : e.mode = .running) :
    (e.cycle.1 = .error (.decode e.word e.machine.ip) ↔ ∀ k : Kind, ¬ k.Matches e.word) ∧
    (e.cycle.1 = .error (.stack .overflow) ↔
      Kind.call.Matches e.word ∧ e.machine.stack.depth = stackSize) ∧
    (e.cycle.1 = .error (.stack .underflow) ↔
      Kind.ret.Matches e.word ∧ e.machine.stack.depth = 0) ∧
    ∀ f, e.cycle.1 = .error f →
      (f = .decode e.word e.machine.ip ∨ f = .stack .overflow ∨ f = .stack .underflow) ∧
      e.cycle.2.machine =
        { e.machine with opcode := e.word, ip := (e.machine.ip + 2) % 0x10000 } ∧
      e.cycle.2.mode = e.mode ∧ e.cycle.2.host = e.host ∧ e.cycle.2.former = e.former ∧
      e.cycle.2.decoder = e.decoder := by
  have hc := cycle_cycled he hr
  obtain ⟨hdecode, hoverflow, hunderflow⟩ := hc.fault_iff
  refine ⟨hdecode, hoverflow, hunderflow, ?_⟩
  intro f hf
  exact hc.failed hf

/-- Glyphs are no instructions. -/
theorem cycle_faults_glyph :
    let e : Emulator := { machine := { Machine.booted with ip := 0 }, host := .still }
    e.WellFormed ∧ e.mode = .running ∧ e.cycle.1 = .error (.decode 0xF090 0) ∧
      e.cycle.2.machine = { e.machine with opcode := 0xF090, ip := 2 } := by
  intro e
  have he : e.WellFormed := ⟨Machine.wellFormed_booted.setIp (by decide), rfl⟩
  have hword : e.word = 0xF090 := by decide +kernel
  obtain ⟨hdecode, -, -, hafter⟩ := cycle_faults he rfl
  have hnone : Instr.ofWord? e.word = none := by
    rw [hword]
    rfl
  have hfault := hdecode.2 ((Instr.ofWord?_eq_none_iff e.word_lt).1 hnone)
  obtain ⟨-, hmachine, -⟩ := hafter _ hfault
  have hcast : ((0xF090 : Nat) : Int) = 0xF090 := by decide
  rw [hword, hcast] at hfault hmachine
  exact ⟨he, rfl, hfault, hmachine⟩

end Emulator

end Chip8
