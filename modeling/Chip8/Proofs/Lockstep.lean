import Chip8.Proofs.Correspondence

/-!
# Mirrored emulators run in step

Mirroring is kept by every instruction. So emulators whose machines mirror each other and whose
hosts are alike come to the same on every operation but a refresh, which no instruction can see: the
same outcome, up to the upper bits of a reported address, and emulators that mirror each other
again.

* `Emulator.Mirrors`: emulators that cannot be told apart by what happens to them.
* `Machine.bisimulation_mirrors`: instructions and ticks keep machines mirrored.
* `Emulator.cycle_together`: a cycle of mirrored emulators.
* `Emulator.run_together`: operations in order, without refreshes.
* `Emulator.mirrors_run`: a cycle, and any run without refreshes.
-/

namespace Chip8

/-- The fault with its address reduced to the size of memory. -/
def Fault.reduced : Fault → Fault
  | .decode opcode address => .decode opcode (Machine.address address)
  | f => f

/-- The failure with its address reduced to the size of memory. -/
def Failure.reduced : Failure → Failure
  | .fault f => .fault f.reduced
  | f => f

theorem Instr.Mirrored.related {i : Instr} {g k : Host} {r r' : Except Fault (Machine × Host)}
    (h : i.Mirrored g k r r') : i.Related Machine.Mirrors g k r r' := by
  cases h with
  | ok h => exact .ok h
  | error f => exact .error f

theorem Machine.bisimulation_mirrors :
    Machine.Bisimulation Mirrors (fun _ => True) Fault.reduced where
  refl := .refl
  word h := h.wordAt_ip
  fault h w := by rw [Fault.reduced, Fault.reduced, h.ip]
  advance h := { h with
    ip := h.address_ip_add 2
    opcode := congrArg Int.ofNat h.wordAt_ip }
  tick h := h.tick
  exec {i _ _ _ _} _ hm hn h ha := (i.exec_mirrors hm hn h ha).related

namespace Emulator

/-- Well-formed emulators in the same mode whose machines mirror each other, on hosts that are
alike. -/
structure Mirrors (e f : Emulator) : Prop where
  /-- The one is well-formed. -/
  left : e.WellFormed
  /-- The other is well-formed. -/
  right : f.WellFormed
  /-- The machines mirror each other. -/
  machine : e.machine.Mirrors f.machine
  /-- Both are running, or both are idle. -/
  mode : e.mode = f.mode
  /-- The hosts are alike. -/
  host : e.host.Alike f.host

/-- Two emulators get to others that mirror each other and use their hosts alike on the way. -/
def Together (e f e' f' : Emulator) : Prop :=
  e'.Mirrors f' ∧
    ∃ draws redraw, e.host.Uses e'.host draws redraw ∧ f.host.Uses f'.host draws redraw

variable {e f : Emulator}

/-! ## Mirroring is kept -/

theorem Mirrors.corresponds (h : e.Mirrors f) : Corresponds Machine.Mirrors e f :=
  ⟨h.left, h.right, h.machine, h.mode, h.host⟩

theorem Together.of_corresponds {e' f' : Emulator} (h : Corresponds Machine.Mirrors e' f')
    (hu : e.host.UsedAlike f.host e'.host f'.host) : Together e f e' f' :=
  ⟨⟨h.left, h.right, h.machine, h.mode, h.host⟩, hu⟩

theorem failure_reduced : Failure.reduced = Failure.viewed Fault.reduced := by
  funext failure
  cases failure <;> rfl

theorem cycle_together (h : e.Mirrors f) :
    e.cycle.1.mapError Fault.reduced = f.cycle.1.mapError Fault.reduced ∧
      Together e f e.cycle.2 f.cycle.2 := by
  obtain ⟨hr, hc, hu⟩ := cycle_corresponds Machine.bisimulation_mirrors h.corresponds nextIn_true
  exact ⟨hr, .of_corresponds hc hu⟩

theorem run_together (h : e.Mirrors f) {ops : List Operation} (hops : .refresh ∉ ops) :
    (e.run ops).1.map (·.mapError Failure.reduced) =
        (f.run ops).1.map (·.mapError Failure.reduced) ∧
      Together e f (e.run ops).2 (f.run ops).2 := by
  obtain ⟨-, hc, hu⟩ := run_corresponds Machine.bisimulation_mirrors h.corresponds ops
  rw [failure_reduced]
  exact ⟨results_corresponds Machine.bisimulation_mirrors h.corresponds hops,
    .of_corresponds hc (hu hops)⟩

/-- **Mirroring.** On mirrored emulators a cycle goes through on both or fails on both in the same
way, up to the upper bits of the address that a fault names; it leaves emulators that mirror each
other, with as many random values drawn and a redraw asked for on both or on neither. So does any
sequence of operations but refreshes. -/
theorem mirrors_run (h : e.Mirrors f) :
    (e.cycle.1.mapError Fault.reduced = f.cycle.1.mapError Fault.reduced ∧
      Together e f e.cycle.2 f.cycle.2) ∧
    ∀ ops : List Operation, .refresh ∉ ops →
      (e.run ops).1.map (·.mapError Failure.reduced) =
          (f.run ops).1.map (·.mapError Failure.reduced) ∧
        Together e f (e.run ops).2 (f.run ops).2 :=
  ⟨cycle_together h, fun _ hops => run_together h hops⟩

/-- One instruction pointer leaves memory where the other one wraps around. -/
theorem mirrors_run_around :
    let e : Emulator := { machine := { Machine.booted with ip := 0x0FFF }, host := .still }
    let f : Emulator := { machine := { Machine.booted with ip := 0xFFFF }, host := .still }
    e.Mirrors f ∧ (e.cycle.1.mapError Fault.reduced = f.cycle.1.mapError Fault.reduced ∧
        Together e f e.cycle.2 f.cycle.2) ∧
      (.refresh ∉ [Operation.cycle, .tick, .cycle] ∧
        (e.run [.cycle, .tick, .cycle]).2.Mirrors (f.run [.cycle, .tick, .cycle]).2) := by
  intro e f
  have hmirrors : e.Mirrors f := {
    left := ⟨Machine.wellFormed_booted.setIp (by decide), rfl⟩
    right := ⟨Machine.wellFormed_booted.setIp (by decide), rfl⟩
    machine := ⟨rfl, rfl, rfl, by decide, rfl, rfl, rfl, rfl, rfl⟩
    mode := rfl
    host := ⟨rfl, rfl⟩ }
  obtain ⟨hcycle, hrun⟩ := mirrors_run hmirrors
  exact ⟨hmirrors, hcycle, by decide, (hrun _ (by decide)).2.1⟩

end Emulator

end Chip8
