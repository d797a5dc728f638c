import Chip8.Proofs.Loading
import Chip8.Proofs.Painting
import Chip8.Proofs.Tracing

/-!
# Pauses

While an emulator is idle, a cycle does nothing that shows but for a trace. So the cycles of a pause
may be left out of a run, and of everything that happens during one only the ticks reach the
machine.

* `Emulator.awake`: the operations of a run but for cycles during a pause.
* `Emulator.run_awake`: a run without them.
* `Emulator.run_idle`: a run within a pause.
* `Emulator.run_pauses`: both together.
-/

namespace Chip8

/-- The failures among results, in order. -/
def failures (results : List (Except Failure Unit)) : List Failure :=
  results.filterMap fun
    | .error failure => some failure
    | .ok () => none

namespace Emulator

/-- The operations but for the cycles that find the emulator idle. -/
def awake (e : Emulator) : List Operation → List Operation
  | [] => []
  | op :: ops =>
    if op = .cycle ∧ e.mode = .idle then (e.step op).2.awake ops
    else op :: (e.step op).2.awake ops

variable {e : Emulator}

/-- A cycle during a pause changes nothing but the log. -/
theorem step_cycle_idle (h : e.mode = .idle) :
    (e.step .cycle).1 = .ok () ∧ (e.step .cycle).2.SameState e := by
  rw [step, cycle_idle h]
  exact ⟨rfl, sameState_trace e .idle⟩

/-- A run comes to the same without the cycles of its pauses. -/
theorem run_awake (e : Emulator) (ops : List Operation) :
    failures (e.run (e.awake ops)).1 = failures (e.run ops).1 ∧
      (e.run (e.awake ops)).2.SameState (e.run ops).2 := by
  induction ops generalizing e with
  | nil => exact ⟨rfl, .refl e⟩
  | cons op ops ih =>
    obtain ⟨hfailures, hstate⟩ := ih (e.step op).2
    by_cases hop : op = .cycle ∧ e.mode = .idle
    · -- What is left out has changed the log at most, and no operation can see the log.
      obtain ⟨rfl, hidle⟩ := hop
      obtain ⟨hok, hsame⟩ := step_cycle_idle hidle
      obtain ⟨hresults, hrun⟩ := hsame.symm.run ((e.step .cycle).2.awake ops)
      rw [awake, if_pos ⟨rfl, hidle⟩, run, hok, hresults, hfailures]
      exact ⟨rfl, hrun.trans hstate⟩
    · rw [awake, if_neg hop, run, run]
      refine ⟨?_, hstate⟩
      cases (e.step op).1 with
      | error failure => exact congrArg (failure :: ·) hfailures
      | ok => exact hfailures

end Emulator

/-! ## Within a pause -/

namespace Machine

/-- The machine after so many ticks: its timers have counted down, and stopped at zero. -/
def lapse (m : Machine) (ticks : Nat) : Machine :=
  { m with delay := max 0 (m.delay - ticks), sound := max 0 (m.sound - ticks) }

theorem lapse_zero {m : Machine} (h : m.WellFormed) : m.lapse 0 = m := by
  have hd : max 0 (m.delay - (0 : Nat)) = m.delay := by
    have := h.delay_bounds
    omega
  have hs : max 0 (m.sound - (0 : Nat)) = m.sound := by
    have := h.sound_bounds
    omega
  rw [lapse, hd, hs]

theorem lapse_one {m : Machine} (h : m.WellFormed) : m.lapse 1 = m.tick := by
  have hcount : ∀ t : Int, 0 ≤ t → max 0 (t - (1 : Nat)) = countDown t := by
    intro t ht
    unfold countDown
    split <;> omega
  rw [lapse, hcount _ h.delay_bounds.1, hcount _ h.sound_bounds.1, tick]

theorem lapse_lapse (m : Machine) (j k : Nat) : (m.lapse j).lapse k = m.lapse (k + j) := by
  have hmax : ∀ t : Int, max 0 (max 0 (t - j) - k) = max 0 (t - (k + j : Nat)) := by
    intro t
    omega
  simp only [lapse, hmax]

end Machine

namespace Emulator

variable {e : Emulator}

/-- Of all that happens to an idle emulator until it is resumed or gets another machine, only ticks
reach its machine, and nothing fails but a refresh whose picture is refused. -/
theorem step_idle (he : e.WellFormed) (hidle : e.mode = .idle) {op : Operation}
    (hop : op ≠ .resume ∧ ¬ op.Replaces) :
    ((op = .refresh → e.host.presenter.Shows (64, 32)) → (e.step op).1 = .ok ()) ∧
      (e.step op).2.mode = .idle ∧
      (e.step op).2.host.random = e.host.random ∧
      (e.step op).2.machine = e.machine.lapse (if op == .tick then 1 else 0) := by
  have hstill : e.machine = e.machine.lapse 0 := (Machine.lapse_zero he.machine).symm
  cases op with
  | load | boot => exact absurd trivial hop.2
  | resume => exact absurd rfl hop.1
  | cycle =>
    obtain ⟨hok, hsame⟩ := step_cycle_idle hidle
    refine ⟨fun _ => hok, hsame.mode.trans hidle, by rw [hsame.host], ?_⟩
    rw [hsame.machine]
    exact hstill
  | tick => exact ⟨fun _ => rfl, hidle, rfl, (Machine.lapse_one he.machine).symm⟩
  | idle => exact ⟨fun _ => rfl, rfl, rfl, hstill⟩
  | hold held => exact ⟨fun _ => rfl, hidle, rfl, hstill⟩
  | refresh =>
    exact ⟨fun hshows => step_refresh_ok he.machine (hshows rfl), hidle, rfl, hstill⟩

theorem run_idle (he : e.WellFormed) (hidle : e.mode = .idle) {ops : List Operation}
    (hops : ∀ op ∈ ops, op ≠ .resume ∧ ¬ op.Replaces) :
    (∀ k : Nat, (ops[k]? = some .refresh → e.host.presenter.Shows (64, 32)) →
        ∀ r ∈ (e.run ops).1[k]?, r = .ok ()) ∧
      (e.run ops).2.mode = .idle ∧ (e.run ops).2.host.random = e.host.random ∧
      (e.run ops).2.machine = e.machine.lapse (ops.count .tick) := by
  induction ops generalizing e with
  | nil =>
    refine ⟨fun k _ r hr => ?_, hidle, rfl, (Machine.lapse_zero he.machine).symm⟩
    simp [run] at hr
  | cons op ops ih =>
    rw [List.forall_mem_cons] at hops
    obtain ⟨hok, hidle', hrandom, hmachine⟩ := step_idle he hidle hops.1
    obtain ⟨hoks, hidles, hrandoms, hmachines⟩ := ih (step_wellFormed he op) hidle' hops.2
    refine ⟨fun k hshows r hr => ?_, hidles, hrandoms.trans hrandom, ?_⟩
    · cases k with
      | zero =>
        rw [run, List.getElem?_cons_zero, Option.mem_some_iff] at hr
        subst hr
        exact hok fun hop => hshows (congrArg some hop)
      | succ k => exact hoks k (fun hop => step_shows he (hshows hop) op) r hr
    · rw [run, hmachines, hmachine, Machine.lapse_lapse, List.count_cons]

/-- **Pauses.** Without the cycles that find the emulator idle, a run has the same failures in the
same order and leaves the same machine, in the same mode and with the same host. From the beginning
of a pause on, until it ends or the machine is replaced, nothing fails but a refresh whose picture
is refused, no random value is drawn and the machine stays as it is, but that its timers count down
with every tick. -/
theorem run_pauses (he : e.WellFormed) (ops : List Operation) :
    failures (e.run (e.awake ops)).1 = failures (e.run ops).1 ∧
    (e.run (e.awake ops)).2.machine = (e.run ops).2.machine ∧
    (e.run (e.awake ops)).2.mode = (e.run ops).2.mode ∧
    (e.run (e.awake ops)).2.host = (e.run ops).2.host ∧
    (e.mode = .idle → (∀ op ∈ ops, op ≠ .resume ∧ ¬ op.Replaces) →
      (∀ k : Nat, (ops[k]? = some .refresh → e.host.presenter.Shows (64, 32)) →
          ∀ r ∈ (e.run ops).1[k]?, r = .ok ()) ∧
        (e.run ops).2.mode = .idle ∧ (e.run ops).2.host.random = e.host.random ∧
        (e.run ops).2.machine =
          { e.machine with
            delay := max 0 (e.machine.delay - ops.count .tick)
            sound := max 0 (e.machine.sound - ops.count .tick) }) := by
  obtain ⟨hfailures, hsame⟩ := run_awake e ops
  exact ⟨hfailures, hsame.machine, hsame.mode, hsame.host, fun hidle hops => run_idle he hidle hops⟩

/-- A pause in the course of a program, with two ticks during it. -/
theorem run_pauses_ticking :
    let program : List UInt8 := [0x61, 0x05, 0xF1, 0x15, 0x71, 0x01]
    let e : Emulator := { machine := .fresh program, host := .still }
    let pause : List Operation := [.cycle, .tick, .cycle, .tick]
    let ops : List Operation := .cycle :: .cycle :: .idle :: pause ++ [.resume, .cycle]
    let paused := (e.run [.cycle, .cycle, .idle]).2
    e.WellFormed ∧ paused.WellFormed ∧ paused.mode = .idle ∧
      e.awake ops = [.cycle, .cycle, .idle, .tick, .tick, .resume, .cycle] ∧
      (e.run (e.awake ops)).2.machine = (e.run ops).2.machine ∧
      (e.run ops).2.machine.reg 1 = 6 ∧
      (paused.run pause).2.machine = { paused.machine with delay := 3, sound := 0 } := by
  intro program e pause ops paused
  have he : e.WellFormed := ⟨Machine.wellFormed_fresh (by decide), rfl⟩
  have hpaused : paused.WellFormed := he.run _
  obtain ⟨hidle, hdelay, hsound, hawake, hreg⟩ : paused.mode = .idle ∧
      paused.machine.delay = 5 ∧ paused.machine.sound = 0 ∧
      e.awake ops = [.cycle, .cycle, .idle, .tick, .tick, .resume, .cycle] ∧
      (e.run ops).2.machine.reg 1 = 6 := by decide +kernel
  have hpause : ∀ op ∈ pause, op ≠ .resume ∧ ¬ op.Replaces := by simp [pause, Operation.Replaces]
  obtain ⟨-, hmachine, -⟩ := run_pauses he ops
  obtain ⟨-, -, -, -, hwithin⟩ := run_pauses hpaused pause
  obtain ⟨-, -, -, htimers⟩ := hwithin hidle hpause
  rw [hdelay, hsound] at htimers
  exact ⟨he, hpaused, hidle, hawake, hmachine, hreg, htimers⟩

end Emulator

end Chip8
