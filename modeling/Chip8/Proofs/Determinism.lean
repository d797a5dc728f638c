import Chip8.Proofs.Correspondence

/-!
# Programs start anew

Of its host a machine sees the held keys and the random values to come, and it is the only memory
that an emulator has of a program. So emulators whose machines are equal, in the same mode and on
hosts that are alike, cannot be told apart, and a program that is loaded runs as if nothing had been
before.

* `Instr.exec_alike`: an instruction does the same to a machine on hosts that are alike.
* `Machine.bisimulation_eq`: equality is kept by every instruction.
* `Emulator.run_equal`: emulators with equal machines run alike.
* `Emulator.load_anew`: loading is all or nothing, and what follows depends on the program alone.
-/

namespace Chip8

/-! ## One machine on two hosts -/

namespace Instr

variable {i : Instr} {g k : Host}

/-- An instruction makes its machine of something that does not hang on the host. -/
theorem related_map {α : Type} (r : Except Fault α) (f : α → Machine) :
    i.Related Eq g k (r.map fun a => (f a, i.touch g)) (r.map fun a => (f a, i.touch k)) := by
  cases r with
  | error fault => exact .error fault
  | ok a => exact .ok rfl

/-- An instruction does the same to a machine on hosts that are alike. -/
theorem exec_alike (i : Instr) (m : Machine) (ha : g.Alike k) :
    i.Related Eq g k (i.exec m g) (i.exec m k) := by
  obtain ⟨kind, x, y, n, kk, nnn⟩ := i
  cases kind with
  | ret | call | draw | readDelay | storeDecimal | storeRegs | loadRegs => exact related_map _ _
  | skipKeyHeld | skipKeyFree =>
    simp only [exec, ha.isHeld]
    exact .ok rfl
  | waitKey =>
    simp only [exec, ha.firstHeld?]
    exact .ok rfl
  | random =>
    simp only [exec, RandomSource.next_fst, ha.upcoming]
    exact .ok rfl
  | _ => exact .ok rfl

end Instr

theorem Machine.bisimulation_eq : Machine.Bisimulation Eq (fun _ => True) id where
  refl _ := rfl
  word h := by rw [h]
  fault h w := by rw [h]
  advance h := by rw [h]
  tick h := by rw [h]
  exec _ _ _ h ha := by
    subst h
    exact Instr.exec_alike _ _ ha

namespace Emulator

variable {e f : Emulator}

/-! ## Equal machines -/

theorem viewed_id : Failure.viewed id = id := by
  funext failure
  cases failure <;> rfl

theorem mapError_id (r : Except Failure Unit) : r.mapError id = r := by
  cases r <;> rfl

/-- Emulators with equal machines, in the same mode and on hosts that are alike, come to the same on
every operation, but for a refresh whose picture is refused, with equal machines behind each. -/
theorem run_equal (h : Corresponds Eq e f) (ops : List Operation) :
    (∀ k : Nat, (ops[k]? = some .refresh → e.BothShow f) →
      (e.run ops).1[k]? = (f.run ops).1[k]?) ∧ Corresponds Eq (e.run ops).2 (f.run ops).2 := by
  obtain ⟨hr, hc, -⟩ := run_corresponds Machine.bisimulation_eq h ops
  refine ⟨fun k hshow => ?_, hc⟩
  have hk := hr k hshow
  rw [viewed_id] at hk
  simpa only [mapError_id, Option.map_id_fun', id_eq] using hk

/-! ## Loading -/

/-- Loading replaces the machine and the decoder, so nothing of the old ones is left. -/
theorem started_equal (hhost : e.host.Alike f.host) {program : List UInt8}
    (h : program.length ≤ 3584) :
    Corresponds Eq (e.started program) (f.started program) where
  left := started_wellFormed e h
  right := started_wellFormed f h
  machine := rfl
  mode := rfl
  host := hhost

/-- **Loading.** A program is loaded iff it has no more than 3584 bytes. One that is longer changes
nothing. One that is loaded starts in a machine that is told by it alone and to which instructions
are bound from then on. Whatever happens afterwards comes to the same, and leaves the same machine,
as in any other emulator that has loaded it on a host that is alike; of a refresh that is so if no
picture is refused. -/
theorem load_anew (he : e.machine.WellFormed) (hf : f.machine.WellFormed) (program : List UInt8) :
    ((e.load program).1 = .ok () ↔ program.length ≤ 3584) ∧
    (3584 < program.length → e.load program = (.error (.tooLong program.length), e)) ∧
    (program.length ≤ 3584 →
      (e.load program).2.machine = .fresh program ∧ (e.load program).2.mode = .running ∧
      (e.load program).2.BindsPresent ∧
      (e.host.Alike f.host → ∀ ops,
        (∀ k : Nat, (ops[k]? = some .refresh → e.BothShow f) →
          ((e.load program).2.run ops).1[k]? = ((f.load program).2.run ops).1[k]?) ∧
        ((e.load program).2.run ops).2.machine = ((f.load program).2.run ops).2.machine ∧
        ((e.load program).2.run ops).2.mode = ((f.load program).2.run ops).2.mode)) := by
  refine ⟨?_, load_refused he, ?_⟩
  · rcases Nat.lt_or_ge 3584 program.length with hlong | hshort
    · rw [load_refused he hlong]
      refine ⟨fun hok => ?_, fun h => by omega⟩
      cases hok
    · rw [load_ok he hshort]
      exact ⟨fun _ => hshort, fun _ => rfl⟩
  · intro h
    rw [load_ok he h, load_ok hf h]
    refine ⟨rfl, rfl, (started_wellFormed e h).bindsPresent, ?_⟩
    intro hhost ops
    obtain ⟨hr, hc⟩ := run_equal (started_equal hhost h) ops
    exact ⟨hr, hc.machine, hc.mode⟩

/-- A word that denotes nothing is no matter for the host. -/
theorem host_cycle_undecoded (he : e.WellFormed) (hr : e.mode = .running)
    (hw : Instr.ofWord? e.word = none) : e.cycle.2.host = e.host := by
  rw [cycle_undecoded he hr hw]
  rfl

/-- An emulator that has failed and been paused starts a program like a new one. -/
theorem load_anew_after_fault :
    let e := (({ host := .still } : Emulator).run [.cycle, .tick, .idle]).2
    let f : Emulator := { host := .still }
    let program : List UInt8 := [0x63, 0x2A]
    e.machine.WellFormed ∧ f.machine.WellFormed ∧ e.mode = .idle ∧
      (e.load program).1 = .ok () ∧ ((e.load program).2.run [.cycle]).2.machine.reg 3 = 0x2A := by
  intro e f program
  have hnew : f.WellFormed := ⟨Machine.wellFormed_booted, rfl⟩
  have hf : f.machine.WellFormed := hnew.machine
  have he : e.machine.WellFormed := (hnew.run _).machine
  have hword : Instr.ofWord? f.word = none := by decide +kernel
  have hrun : ∀ d : Emulator, (d.run [.cycle, .tick, .idle]).2.host = d.cycle.2.host :=
    fun _ => rfl
  have hsame : e.host = f.host :=
    (hrun f).trans (host_cycle_undecoded hnew rfl hword)
  have hhost : e.host.Alike f.host := by
    rw [hsame]
    exact ⟨rfl, rfl⟩
  obtain ⟨hiff, -, hload⟩ := load_anew he hf program
  obtain ⟨-, -, -, hruns⟩ := hload (by decide)
  obtain ⟨-, hmachine, -⟩ := hruns hhost [.cycle]
  refine ⟨he, hf, rfl, hiff.2 (by decide), ?_⟩
  rw [hmachine]
  decide +kernel

end Emulator

end Chip8
