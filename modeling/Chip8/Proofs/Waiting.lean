import Chip8.Proofs.Flow
import Chip8.Proofs.Pause

/-!
# Waiting for a key

An instruction that waits for a key steps back to itself until one is held, so that timers run on
and the host keeps control. While it waits the machine stands still but for its timers, however
cycles, ticks and pauses follow each other, and then it takes the lowest held key and goes on.

* `Machine.waited`: the machine after a wait.
* `Emulator.carried`: what the cycles find that are not put off.
* `Emulator.cycle_waits`, `Emulator.cycle_takes`: one cycle without and with a held key.
* `Emulator.step_waits`, `Emulator.run_waits`: one operation of a wait, and a wait of any length.
* `Emulator.run_waiting`: a wait, and the cycle that ends it.
-/

namespace Chip8

theorem Keypad.firstHeld?_of_lowest {k : Keypad} {key : Fin 16} (hheld : k.isHeld key = true)
    (hlowest : ∀ lower < key, k.isHeld lower = false) : k.firstHeld? = some key := by
  rw [firstHeld?, List.find?_eq_some_iff_getElem]
  refine ⟨hheld, key.val, by simp, by simp, ?_⟩
  intro j hj
  rw [List.getElem_finRange, hlowest _ hj]
  rfl

/-- The machine after a wait: its timers have counted down, and the word may have been fetched. -/
def Machine.waited (m : Machine) (ticks : Nat) (opcode : Int) : Machine :=
  { m.lapse ticks with opcode }

theorem Machine.waited_zero {m : Machine} (hm : m.WellFormed) (opcode : Int) :
    m.waited 0 opcode = { m with opcode } := by
  rw [waited, lapse_zero hm]

theorem Machine.waited_waited (m : Machine) (j k : Nat) (o o' : Int) :
    (m.waited j o).waited k o' = m.waited (k + j) o' := by
  have hboth : (m.waited j o).waited k o' = { (m.lapse j).lapse k with opcode := o' } := rfl
  rw [hboth, lapse_lapse, waited]

namespace Emulator

/-- The emulators that the cycles of a run find running, in order. All others are put off. -/
def carried (e : Emulator) : List Operation → List Emulator
  | [] => []
  | op :: ops =>
    if op = .cycle ∧ e.mode = .running then e :: (e.step op).2.carried ops
    else (e.step op).2.carried ops

variable {e : Emulator} {i : Instr}

/-! ## One cycle -/

/-- Without a held key an instruction that waits leaves nothing but its word. -/
theorem cycle_waits (he : e.WellFormed) (hr : e.mode = .running)
    (hi : Instr.ofWord? e.word = some i) (hk : i.kind = .waitKey)
    (hfree : ∀ key, e.host.keypad.isHeld key = false) :
    e.cycle = (.ok (), { e.advance.trace i with
      machine := { e.machine with opcode := e.word }, host := e.host }) := by
  have hback : Machine.word (Machine.word (e.machine.ip + 2) - 2) = e.machine.ip := by
    have := he.machine.ip_bounds
    unfold Machine.word
    omega
  have hexec : i.exec e.machine.advance e.host =
      .ok ({ e.machine with opcode := e.word }, e.host) := by
    simp only [Instr.exec, hk, Keypad.firstHeld?_eq_none_iff.2 hfree, Machine.waitKey,
      Machine.advance, hback]
    rfl
  rw [cycle_decoded he hr hi, hexec]

/-- With keys held it takes the lowest one and goes on behind itself. -/
theorem cycle_takes (he : e.WellFormed) (hr : e.mode = .running)
    (hi : Instr.ofWord? e.word = some i) (hk : i.kind = .waitKey) {key : Fin 16}
    (hheld : e.host.keypad.isHeld key = true)
    (hlowest : ∀ lower < key, e.host.keypad.isHeld lower = false) :
    e.cycle = (.ok (), { e.advance.trace i with
      machine := e.machine.advance.setReg i.x (UInt8.ofNat key.val), host := e.host }) := by
  have hexec : i.exec e.machine.advance e.host =
      .ok (e.machine.advance.setReg i.x (UInt8.ofNat key.val), e.host) := by
    simp only [Instr.exec, hk, Keypad.firstHeld?_of_lowest hheld hlowest, Machine.waitKey]
  rw [cycle_decoded he hr hi, hexec]

/-! ## Waits of any length -/

/-- What an emulator has come to when it has waited. -/
structure Waited (e f : Emulator) (ticks : Nat) (opcode : Int) : Prop where
  /-- The machine stands where it stood. -/
  machine : f.machine = e.machine.waited ticks opcode
  /-- No random value was drawn. -/
  random : f.host.random = e.host.random
  /-- No redraw was asked for. -/
  presenter : f.host.presenter = e.host.presenter

theorem Waited.word {f : Emulator} {ticks : Nat} {opcode : Int} (h : e.Waited f ticks opcode) :
    f.word = e.word := by
  rw [Emulator.word, h.machine]
  rfl

theorem Waited.trans {f g : Emulator} {j k : Nat} {o o' : Int} (h : e.Waited f j o)
    (h' : f.Waited g k o') : e.Waited g (k + j) o' where
  machine := by rw [h'.machine, h.machine, Machine.waited_waited]
  random := h'.random.trans h.random
  presenter := h'.presenter.trans h.presenter

theorem waited_refl (he : e.WellFormed) : e.Waited e 0 e.machine.opcode :=
  ⟨(Machine.waited_zero he.machine _).symm, rfl, rfl⟩

/-- One operation of a wait. -/
theorem step_waits (he : e.WellFormed) (hi : Instr.ofWord? e.word = some i)
    (hk : i.kind = .waitKey) {op : Operation} (hop : op ≠ .refresh ∧ ¬ op.Replaces)
    (hfree : op = .cycle → e.mode = .running → ∀ key, e.host.keypad.isHeld key = false) :
    (e.step op).1 = .ok () ∧
      e.Waited (e.step op).2 (if op == .tick then 1 else 0)
        (if op = .cycle ∧ e.mode = .running then e.word else e.machine.opcode) := by
  cases op with
  | load | boot => exact absurd trivial hop.2
  | refresh => exact absurd rfl hop.1
  | cycle =>
    cases hr : e.mode with
    | idle =>
      obtain ⟨hok, hsame⟩ := step_cycle_idle hr
      refine ⟨hok, ?_, by rw [hsame.host], by rw [hsame.host]⟩
      rw [hsame.machine]
      exact (Machine.waited_zero he.machine _).symm
    | running =>
      rw [step, cycle_waits he hr hi hk (hfree rfl hr)]
      exact ⟨rfl, (Machine.waited_zero he.machine _).symm, rfl, rfl⟩
  | tick =>
    refine ⟨rfl, ?_, rfl, rfl⟩
    exact (Machine.lapse_one he.machine).symm
  | idle | resume | hold => exact ⟨rfl, (Machine.waited_zero he.machine _).symm, rfl, rfl⟩

/-- A wait of any length. The induction is on the operations; the word stays the same. -/
theorem run_waits (he : e.WellFormed) (hi : Instr.ofWord? e.word = some i)
    (hk : i.kind = .waitKey) {ops : List Operation}
    (hops : ∀ op ∈ ops, op ≠ .refresh ∧ ¬ op.Replaces)
    (hfree : ∀ f ∈ e.carried ops, ∀ key, f.host.keypad.isHeld key = false) :
    (∀ r ∈ (e.run ops).1, r = .ok ()) ∧
      e.Waited (e.run ops).2 (ops.count .tick)
        (if (e.carried ops).isEmpty then e.machine.opcode else e.word) := by
  induction ops generalizing e with
  | nil => exact ⟨List.forall_mem_nil _, waited_refl he⟩
  | cons op ops ih =>
    rw [List.forall_mem_cons] at hops
    have hhere : op = .cycle → e.mode = .running → ∀ key, e.host.keypad.isHeld key = false := by
      intro hop hr
      rw [carried, if_pos ⟨hop, hr⟩] at hfree
      exact hfree e (List.mem_cons_self ..)
    have hrest : ∀ f ∈ (e.step op).2.carried ops, ∀ key, f.host.keypad.isHeld key = false := by
      intro f hf
      refine hfree f ?_
      rw [carried]
      split
      · exact List.mem_cons_of_mem _ hf
      · exact hf
    obtain ⟨hok, hstep⟩ := step_waits he hi hk hops.1 hhere
    have hi' : Instr.ofWord? (e.step op).2.word = some i := by rw [hstep.word, hi]
    obtain ⟨hoks, hrun⟩ := ih (step_wellFormed he op) hi' hops.2 hrest
    have hopcode : (if ((e.step op).2.carried ops).isEmpty then (e.step op).2.machine.opcode
        else ((e.step op).2.word : Int)) =
        if (e.carried (op :: ops)).isEmpty then e.machine.opcode else e.word := by
      rw [hstep.word, hstep.machine, carried]
      by_cases hop : op = .cycle ∧ e.mode = .running
      · simp [hop, Machine.waited]
      · simp [hop, Machine.waited]
    refine ⟨?_, ?_⟩
    · rw [run, List.forall_mem_cons]
      exact ⟨hok, hoks⟩
    · rw [← hopcode, run, List.count_cons]
      exact hstep.trans hrun

/-- **Waiting.** The word at the instruction pointer waits for a key. Whatever cycles, ticks, pauses
and changes of the held keys follow each other, as long as no cycle that is carried out finds a key
held, nothing fails, the machine stands where it stood but for its timers and the fetched word, no
random value is drawn and no redraw is asked for. The first cycle behind it that is carried out with
keys held puts the lowest of them into the register and goes on with the next word, and changes
nothing else. -/
theorem run_waiting (he : e.WellFormed) (hi : Instr.ofWord? e.word = some i)
    (hk : i.kind = .waitKey) {ops : List Operation}
    (hops : ∀ op ∈ ops, op ≠ .refresh ∧ ¬ op.Replaces)
    (hfree : ∀ f ∈ e.carried ops, ∀ key, f.host.keypad.isHeld key = false) :
    let f := (e.run ops).2
    (∀ r ∈ (e.run ops).1, r = .ok ()) ∧
    f.machine = { e.machine with
      delay := max 0 (e.machine.delay - ops.count .tick)
      sound := max 0 (e.machine.sound - ops.count .tick)
      opcode := if (e.carried ops).isEmpty then e.machine.opcode else e.word } ∧
    f.host.random = e.host.random ∧ f.host.presenter = e.host.presenter ∧
    ∀ key, f.mode = .running → f.host.keypad.isHeld key = true →
      (∀ lower < key, f.host.keypad.isHeld lower = false) →
      f.cycle.1 = .ok () ∧
        f.cycle.2.machine = { f.machine with
          opcode := e.word
          ip := (e.machine.ip + 2) % 0x10000
          v := e.machine.v.set i.x.val (UInt8.ofNat key.val) } ∧
        f.cycle.2.host = f.host ∧ f.cycle.2.mode = f.mode := by
  intro f
  obtain ⟨hoks, hwaited⟩ := run_waits he hi hk hops hfree
  refine ⟨hoks, hwaited.machine, hwaited.random, hwaited.presenter, ?_⟩
  intro key hr hheld hlowest
  have hi' : Instr.ofWord? f.word = some i := by rw [hwaited.word, hi]
  have hip : f.machine.ip = e.machine.ip := by rw [hwaited.machine]; rfl
  have hv : f.machine.v = e.machine.v := by rw [hwaited.machine]; rfl
  rw [cycle_takes (he.run ops) hr hi' hk hheld hlowest]
  refine ⟨rfl, ?_, rfl, mode_trace _ _⟩
  rw [← hip, ← hv, ← hwaited.word]
  rfl

/-- A wait at the last of the 16-bit addresses, and a pause in which two keys go down. -/
theorem run_waiting_around :
    let memory : Memory := ⟨(0x0A :: (List.replicate 4094 0 ++ [0xF3])).toArray⟩
    let e : Emulator :=
      { machine := { Machine.blank with memory, ip := 0xFFFF, delay := 1 }, host := .still }
    let held : Vector Bool 16 := .ofFn fun key => key == 5 || key == 9
    let ops : List Operation := [.cycle, .tick, .idle, .hold held, .cycle, .tick, .resume]
    let f := (e.run ops).2
    e.WellFormed ∧ Instr.ofWord? e.word = some (.ofKind .waitKey 0xF30A) ∧
      (∀ op ∈ ops, op ≠ .refresh ∧ ¬ op.Replaces) ∧
      (∀ g ∈ e.carried ops, ∀ key, g.host.keypad.isHeld key = false) ∧
      f.machine = { e.machine with delay := 0, opcode := 0xF30A } ∧
      f.cycle.2.machine = ({ f.machine with ip := 0x0001 } : Machine).setReg 3 5 := by
  intro memory e held ops f
  have hsize : memory.size = memorySize := by
    rw [Memory.size, List.size_toArray, List.length_cons, List.length_append, List.length_replicate]
    rfl
  have hm : e.machine.WellFormed := {
    Machine.wellFormed_blank with
    memory_size := hsize
    ip_bounds := by decide
    delay_bounds := by decide }
  have he : e.WellFormed := ⟨hm, rfl⟩
  have hword : e.word = 0xF30A := by decide +kernel
  have hi : Instr.ofWord? e.word = some (.ofKind .waitKey 0xF30A) := by
    rw [hword]
    decide
  have hops : ∀ op ∈ ops, op ≠ .refresh ∧ ¬ op.Replaces := by
    simp [ops, Operation.Replaces]
  obtain ⟨hfree, hcarried, hr, hheld, hlowest⟩ :
      (∀ g ∈ e.carried ops, ∀ key, g.host.keypad.isHeld key = false) ∧
      (e.carried ops).isEmpty = false ∧ f.mode = .running ∧
      f.host.keypad.isHeld 5 = true ∧ ∀ lower < 5, f.host.keypad.isHeld lower = false := by
    decide +kernel
  obtain ⟨-, hmachine, -, -, htakes⟩ := run_waiting he hi rfl hops hfree
  obtain ⟨-, hafter, -⟩ := htakes 5 hr hheld hlowest
  rw [hcarried, hword] at hmachine
  have hf : f.machine = { e.machine with delay := 0, opcode := 0xF30A } := hmachine
  refine ⟨he, hi, hops, hfree, hf, ?_⟩
  rw [hafter, hf, hword]
  rfl

end Emulator

end Chip8
