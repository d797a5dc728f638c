import Chip8.Proofs.Determinism

/-!
# Timers and programs

Ticks come from outside, at times that a program does not choose. Of all instructions only one reads
a timer, so a program that does not carry it out runs alike however its timers tick.

* `Machine.AgreeButTimers`: machines that differ in their timers only.
* `Instr.exec_withTimers`: every other instruction does the same to such machines.
* `Emulator.Executes`: an instruction of a kind is carried out in a run.
* `Emulator.run_timing`: runs with the same operations but for ticks.
-/

namespace Chip8

/-! ## Machines up to their timers -/

namespace Machine

/-- The machine with its timers set. -/
def withTimers (m : Machine) (delay sound : Int) : Machine := { m with delay, sound }

/-- The machines agree on everything but their timers. -/
def AgreeButTimers (m n : Machine) : Prop := n = m.withTimers n.delay n.sound

theorem WellFormed.withTimers {m : Machine} (h : m.WellFormed) {delay sound : Int}
    (hd : 0 ≤ delay ∧ delay < 0x100) (hs : 0 ≤ sound ∧ sound < 0x100) :
    (m.withTimers delay sound).WellFormed := (h.setDelay hd).setSound hs

theorem agreeButTimers_withTimers (m : Machine) (delay sound : Int) :
    m.AgreeButTimers (m.withTimers delay sound) := rfl

theorem AgreeButTimers.tick_left {m n : Machine} (h : m.AgreeButTimers n) :
    m.tick.AgreeButTimers n := by
  rw [h]
  rfl

theorem AgreeButTimers.tick_right {m n : Machine} (h : m.AgreeButTimers n) :
    m.AgreeButTimers n.tick := by
  rw [h]
  rfl

theorem skipIf_withTimers (m : Machine) (delay sound : Int) (condition : Bool) :
    (m.withTimers delay sound).skipIf condition =
      (m.skipIf condition).withTimers delay sound := by
  cases condition <;> rfl

end Machine

/-- An instruction that does not read the delay timer does the same whatever the timers are. -/
theorem Instr.exec_withTimers {i : Instr} (hk : i.kind ≠ .readDelay) {m : Machine}
    (hm : m.WellFormed) (delay sound : Int) (h : Host) :
    ∃ delay' sound', i.exec (m.withTimers delay sound) h =
      (i.exec m h).map fun r => (r.1.withTimers delay' sound', r.2) := by
  have hmem := hm.memory_size
  have hmem' : (m.withTimers delay sound).memory.size = memorySize := hmem
  have hpix : (m.withTimers delay sound).screen.HasPixels := hm.hasPixels
  obtain ⟨kind, x, y, n, kk, nnn⟩ := i
  cases kind with
  | readDelay => exact absurd rfl hk
  | ret =>
    refine ⟨delay, sound, ?_⟩
    simp only [exec, Machine.ret, Machine.withTimers]
    cases m.stack.pop <;> rfl
  | call =>
    refine ⟨delay, sound, ?_⟩
    simp only [exec, Machine.call, Machine.withTimers]
    cases m.stack.push m.ip <;> rfl
  | skipEqByte | skipNeByte | skipEqReg | skipNeReg | skipKeyHeld | skipKeyFree =>
    refine ⟨delay, sound, ?_⟩
    simp only [exec, Machine.skipIf_withTimers]
    rfl
  | waitKey =>
    refine ⟨delay, sound, ?_⟩
    simp only [exec]
    cases h.keypad.firstHeld? <;> rfl
  | draw =>
    refine ⟨delay, sound, ?_⟩
    simp only [exec, Machine.draw_eq hmem hm.hasPixels, Machine.draw_eq hmem' hpix]
    rfl
  | storeDecimal | storeRegs =>
    refine ⟨delay, sound, ?_⟩
    simp only [exec, Machine.storeBytes_eq hmem, Machine.storeBytes_eq hmem']
    rfl
  | loadRegs =>
    refine ⟨delay, sound, ?_⟩
    simp only [exec, Machine.bytesAt_eq hmem, Machine.bytesAt_eq hmem']
    rfl
  -- A timer that is set is the same on both machines afterwards.
  | setDelay => exact ⟨(m.reg x).toNat, sound, rfl⟩
  | setSound => exact ⟨delay, (m.reg x).toNat, rfl⟩
  | _ => exact ⟨delay, sound, rfl⟩

theorem Machine.bisimulation_agreeButTimers :
    Machine.Bisimulation AgreeButTimers (· ≠ .readDelay) id where
  refl _ := rfl
  word h := by
    rw [h]
    rfl
  fault h w := by
    rw [h]
    rfl
  advance h := by
    rw [h]
    rfl
  tick h := h.tick_left.tick_right
  exec {i m n g k} hk hm _ h ha := by
    obtain ⟨delay', sound', htimers⟩ := Instr.exec_withTimers hk hm n.delay n.sound k
    have halike := i.exec_alike m ha
    rw [h, htimers]
    generalize i.exec m g = r at halike
    generalize i.exec m k = r' at halike
    cases halike with
    | error f => exact .error f
    | ok hsame =>
      rw [hsame]
      exact .ok rfl

/-! ## Operations but for ticks -/

/-- The operations are the same and in the same order, but for ticks put in between. -/
inductive Operation.Retimed : List Operation → List Operation → Prop where
  | nil : Retimed [] []
  | left {ops ops' : List Operation} (h : Retimed ops ops') : Retimed (.tick :: ops) ops'
  | right {ops ops' : List Operation} (h : Retimed ops ops') : Retimed ops (.tick :: ops')
  | both {op : Operation} {ops ops' : List Operation} (hop : op ≠ .tick) (h : Retimed ops ops') :
    Retimed (op :: ops) (op :: ops')

namespace Operation

theorem Retimed.ticks_append {pre ops ops' : List Operation} (hpre : ∀ op ∈ pre, op = .tick)
    (h : Retimed ops ops') : Retimed ops (pre ++ ops') := by
  induction pre with
  | nil => exact h
  | cons op pre ih =>
    rw [List.forall_mem_cons] at hpre
    rw [hpre.1, List.cons_append]
    exact .right (ih hpre.2)

theorem retimed_of_filter {ops ops' : List Operation}
    (h : ops.filter (· ≠ .tick) = ops'.filter (· ≠ .tick)) : Retimed ops ops' := by
  induction ops generalizing ops' with
  | nil =>
    have hticks : ∀ op ∈ ops', op = .tick := by
      simpa [List.filter_eq_nil_iff] using h.symm
    have hretimed := Retimed.ticks_append hticks .nil
    rwa [List.append_nil] at hretimed
  | cons op ops ih =>
    by_cases hop : op = .tick
    · subst hop
      exact .left (ih h)
    · rw [List.filter_cons_of_pos (by simpa using hop)] at h
      obtain ⟨pre, rest, rfl, hpre, -, hrest⟩ := List.filter_eq_cons_iff.1 h.symm
      have hticks : ∀ op ∈ pre, op = .tick := by simpa using hpre
      exact Retimed.ticks_append hticks (.both hop (ih hrest.symm))

end Operation

namespace Emulator

/-- An instruction of a kind is carried out in the course of the operations. -/
def Executes (e : Emulator) (kind : Kind) : List Operation → Prop
  | [] => False
  | op :: ops =>
    op = .cycle ∧ e.mode = .running ∧ Kind.ofWord? e.word = some kind ∨
      (e.step op).2.Executes kind ops

instance decidableExecutes (kind : Kind) :
    (e : Emulator) → (ops : List Operation) → Decidable (e.Executes kind ops)
  | _, [] => .isFalse id
  | e, op :: ops =>
    have := decidableExecutes kind (e.step op).2 ops
    inferInstanceAs (Decidable (op = .cycle ∧ e.mode = .running ∧ Kind.ofWord? e.word = some kind ∨
      (e.step op).2.Executes kind ops))

/-- Each operation of a run that is not a tick, with what it came to. -/
def trail (e : Emulator) (ops : List Operation) : List (Operation × Except Failure Unit) :=
  (ops.zip (e.run ops).1).filter (·.1 ≠ .tick)

variable {e f : Emulator} {ops ops' : List Operation}

theorem trail_tick : e.trail (.tick :: ops) = e.tick.trail ops := rfl

theorem trail_cons {op : Operation} (hop : op ≠ .tick) :
    e.trail (op :: ops) = (op, (e.step op).1) :: (e.step op).2.trail ops := by
  rw [trail, run, List.zip_cons_cons, List.filter_cons_of_pos (by simpa using hop)]
  rfl

theorem Executes.of_append {kind : Kind} (h : e.Executes kind ops) (rest : List Operation) :
    e.Executes kind (ops ++ rest) := by
  induction ops generalizing e with
  | nil => exact h.elim
  | cons op ops ih => exact h.imp id ih

theorem Corresponds.tick_left (h : Corresponds Machine.AgreeButTimers e f) :
    Corresponds Machine.AgreeButTimers e.tick f :=
  ⟨step_wellFormed h.left .tick, h.right, h.machine.tick_left, h.mode, h.host⟩

theorem Corresponds.tick_right (h : Corresponds Machine.AgreeButTimers e f) :
    Corresponds Machine.AgreeButTimers e f.tick :=
  ⟨h.left, step_wellFormed h.right .tick, h.machine.tick_right, h.mode, h.host⟩

/-- The induction is on how ticks are put in between: one of them moves one of the emulators only,
every other operation moves both. -/
theorem run_retimed (hops : Operation.Retimed ops ops')
    (h : Corresponds Machine.AgreeButTimers e f) (hrefresh : .refresh ∉ ops)
    (hno : ¬ e.Executes .readDelay ops) :
    e.trail ops = f.trail ops' ∧
      Corresponds Machine.AgreeButTimers (e.run ops).2 (f.run ops').2 ∧
      e.host.UsedAlike f.host (e.run ops).2.host (f.run ops').2.host := by
  induction hops generalizing e f with
  | nil => exact ⟨rfl, h, .refl _ _⟩
  | left _ ih =>
    rw [trail_tick]
    exact ih h.tick_left (by simpa using hrefresh) fun hx => hno (.inr hx)
  | right _ ih =>
    rw [trail_tick]
    exact ih h.tick_right hrefresh hno
  | @both op ops ops' hop _ ih =>
    rw [List.mem_cons, not_or] at hrefresh
    rw [Executes, not_or] at hno
    have hnext : op = .cycle → e.NextIn (· ≠ .readDelay) := by
      intro hcycle hr kind hkind heq
      rw [heq] at hkind
      exact hno.1 ⟨hcycle, hr, hkind⟩
    obtain ⟨hr, hc, hu⟩ := step_corresponds Machine.bisimulation_agreeButTimers h hnext
    have hr := hr fun heq => absurd heq.symm hrefresh.1
    rw [viewed_id, mapError_id, mapError_id] at hr
    obtain ⟨hrs, hcs, hus⟩ := ih hc hrefresh.2 hno.2
    refine ⟨?_, hcs, (hu (Ne.symm hrefresh.1)).trans hus⟩
    rw [trail_cons hop, trail_cons hop, hr, hrs]

/-- **Timing.** Two emulators whose machines differ in their timers only, in the same mode and on
hosts that are alike, are given the same operations but for ticks, with no instruction in the first
run that reads the delay timer. Then every operation comes to the same in both runs, and wherever
both have got to the same operation their machines still differ in their timers only, as many random
values are drawn, and a redraw is asked for on both or on neither. -/
theorem run_timing (h : Corresponds Machine.AgreeButTimers e f)
    (hops : ops.filter (· ≠ .tick) = ops'.filter (· ≠ .tick)) (hrefresh : .refresh ∉ ops)
    (hno : ¬ e.Executes .readDelay ops) :
    e.trail ops = f.trail ops' ∧
      ∀ pre pre', pre <+: ops → pre' <+: ops' →
        pre.filter (· ≠ .tick) = pre'.filter (· ≠ .tick) →
        (e.run pre).2.machine.AgreeButTimers (f.run pre').2.machine ∧
          (e.run pre).2.mode = (f.run pre').2.mode ∧
          e.host.UsedAlike f.host (e.run pre).2.host (f.run pre').2.host := by
  obtain ⟨htrail, -, -⟩ := run_retimed (Operation.retimed_of_filter hops) h hrefresh hno
  refine ⟨htrail, ?_⟩
  -- Prefixes with the same operations but for ticks are runs of the same kind.
  rintro pre pre' ⟨rest, rfl⟩ - hpre
  have hrefresh' : Operation.refresh ∉ pre := fun hmem => hrefresh (List.mem_append_left _ hmem)
  obtain ⟨-, hc, hu⟩ := run_retimed (Operation.retimed_of_filter hpre) h hrefresh'
    fun hx => hno (hx.of_append rest)
  exact ⟨hc.machine, hc.mode, hu⟩

/-- The delay timer is set by the program, and ticks twice as often in the second run from then on,
but the program adds up the same number. -/
theorem run_timing_set :
    let program : List UInt8 := [0x61, 0x05, 0xF1, 0x15, 0x71, 0x01]
    let e : Emulator := { machine := .fresh program, host := .still }
    let f : Emulator := { machine := (Machine.fresh program).withTimers 9 7, host := .still }
    let ops : List Operation := [.cycle, .cycle, .tick, .cycle]
    let ops' : List Operation := [.tick, .cycle, .cycle, .tick, .tick, .cycle]
    Corresponds Machine.AgreeButTimers e f ∧
      ops.filter (· ≠ .tick) = ops'.filter (· ≠ .tick) ∧ .refresh ∉ ops ∧
      ¬ e.Executes .readDelay ops ∧ e.trail ops = f.trail ops' ∧
      (e.run ops).2.machine.AgreeButTimers (f.run ops').2.machine ∧
      (e.run ops).2.machine.delay = 4 ∧ (f.run ops').2.machine.delay = 3 ∧
      (e.run ops).2.machine.reg 1 = 6 := by
  intro program e f ops ops'
  have hm : (Machine.fresh program).WellFormed := Machine.wellFormed_fresh (by decide)
  have h : Corresponds Machine.AgreeButTimers e f := {
    left := ⟨hm, rfl⟩
    right := ⟨hm.withTimers (by decide) (by decide), rfl⟩
    machine := Machine.agreeButTimers_withTimers _ 9 7
    mode := rfl
    host := ⟨rfl, rfl⟩ }
  have hops : ops.filter (· ≠ .tick) = ops'.filter (· ≠ .tick) := by decide
  have hrefresh : .refresh ∉ ops := by decide
  have hno : ¬ e.Executes .readDelay ops := by decide +kernel
  obtain ⟨htrail, hagree⟩ := run_timing h hops hrefresh hno
  obtain ⟨hmachine, -⟩ := hagree ops ops' List.prefix_rfl List.prefix_rfl hops
  exact ⟨h, hops, hrefresh, hno, htrail, hmachine, by decide +kernel⟩

end Emulator

end Chip8
