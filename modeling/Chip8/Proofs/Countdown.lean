import Chip8.Proofs.CatchUp
import Chip8.Proofs.Footprint
import Chip8.Proofs.Operation

/-!
# Timers in a run

A timer holds the value that the program gave it last, less the ticks since then, and stops at zero.
Before the program gives it a value it counts down from the one it has when the run opens.

* `Emulator.sets?`: the value that the next instruction gives to a timer.
* `Session.LastSet`: where in a run a timer was last given a value.
* `Session.exists_lastSet`: what a timer is behind any events.
* `Session.run_ticks`: no tick of a run is lost or made twice, whatever its clock does.
-/

namespace Chip8

/-- A timer. -/
inductive Timer where
  /-- The delay timer. -/
  | delay
  /-- The sound timer. -/
  | sound

/-- The kind of instruction that gives a timer a value. -/
def Timer.setter : Timer → Kind
  | .delay => .setDelay
  | .sound => .setSound

/-- The place of a timer. -/
def Timer.place : Timer → Place
  | .delay => .delay
  | .sound => .sound

namespace Machine

/-- The value of a timer. -/
def timer (m : Machine) : Timer → Int
  | .delay => m.delay
  | .sound => m.sound

variable {m m' : Machine}

theorem timer_nonneg (hm : m.WellFormed) (t : Timer) : 0 ≤ m.timer t := by
  cases t with
  | delay => exact hm.delay_bounds.1
  | sound => exact hm.sound_bounds.1

theorem timer_eq (h : m = m') (t : Timer) : m.timer t = m'.timer t := by rw [h]

theorem SameAt.timer_eq {t : Timer} (h : m.SameAt m' t.place) : m'.timer t = m.timer t := by
  cases t <;> exact h

theorem timer_tick (hm : m.WellFormed) (t : Timer) : m.tick.timer t = max 0 (m.timer t - 1) := by
  have hcount : ∀ x : Int, 0 ≤ x → countDown x = max 0 (x - 1) := by
    intro x hx
    rw [countDown]
    split <;> omega
  cases t with
  | delay => exact hcount _ hm.delay_bounds.1
  | sound => exact hcount _ hm.sound_bounds.1

end Machine

/-! ## Instructions that set a timer -/

namespace Instr

variable {i : Instr} {m m' : Machine} {h h' : Host} {t : Timer}

theorem exec_setter (hk : i.kind = t.setter) (hexec : i.exec m h = .ok (m', h')) :
    m'.timer t = (m.reg i.x).toNat := by
  obtain ⟨kind, x, y, n, kk, nnn⟩ := i
  obtain rfl : kind = t.setter := hk
  cases t <;> cases hexec <;> rfl

theorem not_writes_timer (hk : i.kind ≠ t.setter) (m : Machine) : ¬ i.Writes m t.place := by
  cases t <;> exact hk

end Instr

namespace Emulator

variable {e : Emulator}

/-- The value that the next cycle gives to a timer, if it does. -/
def sets? (e : Emulator) (t : Timer) : Option Int :=
  match e.mode, Instr.ofWord? e.word with
  | .running, some i => if i.kind = t.setter then some (e.machine.reg i.x).toNat else none
  | _, _ => none

theorem sets?_of_ne {t : Timer} {i : Instr} (hi : Instr.ofWord? e.word = some i)
    (hk : i.kind ≠ t.setter) : e.sets? t = none := by
  simp only [sets?, hi]
  cases e.mode <;> simp [hk]

theorem sets?_nonneg {t : Timer} {w : Int} (h : e.sets? t = some w) : 0 ≤ w := by
  unfold sets? at h
  split at h
  · split at h
    · cases h
      exact Int.natCast_nonneg _
    · cases h
  · cases h

/-- A cycle gives a timer its value or leaves it as it is. -/
theorem timer_cycle (he : e.WellFormed) (t : Timer) :
    e.cycle.2.machine.timer t = (e.sets? t).getD (e.machine.timer t) := by
  cases hr : e.mode with
  | idle =>
    have hnone : e.sets? t = none := by simp only [sets?, hr]
    rw [cycle_idle hr, machine_trace, hnone]
    rfl
  | running =>
    have hadvance := (e.machine.sameAt_advance t.place).timer_eq
    have hc := cycle_cycled he hr
    generalize e.cycle = r at hc ⊢
    cases hc with
    | undecoded hw =>
      have hnone : e.sets? t = none := by
        simp only [sets?, hr, (Instr.ofWord?_eq_none_iff e.word_lt).2 hw]
      rw [hnone]
      exact hadvance
    | overflow i hi hk | underflow i hi hk =>
      have hne : i.kind ≠ t.setter := by
        rw [hk]
        cases t <;> nofun
      rw [sets?_of_ne hi hne, machine_trace]
      exact hadvance
    | done i hi m _ _ hexec =>
      by_cases hk : i.kind = t.setter
      · have hsome : e.sets? t = some ((e.machine.reg i.x).toNat : Int) := by
          simp only [sets?, hr, hi, if_pos hk]
        have hset : m.timer t = (e.machine.advance.reg i.x).toNat := Instr.exec_setter hk hexec
        rw [hsome]
        exact hset
      · rw [sets?_of_ne hi hk]
        have hsame := Instr.exec_sameAt he.machine.advance hexec (Instr.not_writes_timer hk _)
        exact hsame.timer_eq.trans hadvance

end Emulator

/-! ## Timers behind events -/

namespace Session

variable {τ : Type} {s : Session}

/-- In the events `first`, and then `rest`, the value that a timer was last given is `w`: the last
event of `first` is the instruction that gave it, or there is no such event and the timer had it at
first, and none of `rest` gives it another. -/
structure LastSet (s : Session) (t : Timer) (first rest : List (Event τ)) (w : Int) : Prop where
  /-- Where the value is from. -/
  source : first = [] ∧ w = s.emulator.machine.timer t ∨
    ∃ before, first = before ++ [.cycle] ∧ (s.after before).emulator.sets? t = some w
  /-- The timer is given no value since. -/
  since : ∀ mid, mid ++ [.cycle] <+: rest → (s.after (first ++ mid)).emulator.sets? t = none

variable {t : Timer} {first rest : List (Event τ)} {w : Int} {ev : Event τ}

theorem LastSet.nil (s : Session) (t : Timer) :
    s.LastSet t ([] : List (Event τ)) [] (s.emulator.machine.timer t) where
  source := .inl ⟨rfl, rfl⟩
  since _ h := absurd (List.prefix_nil.1 h) (List.append_ne_nil_of_right_ne_nil _ nofun)

theorem LastSet.cycle {evs : List (Event τ)} (h : (s.after evs).emulator.sets? t = some w) :
    s.LastSet t (evs ++ [.cycle]) [] w where
  source := .inr ⟨evs, rfl, h⟩
  since _ h := absurd (List.prefix_nil.1 h) (List.append_ne_nil_of_right_ne_nil _ nofun)

theorem LastSet.append (h : s.LastSet t first rest w)
    (hev : ev = .cycle → (s.after (first ++ rest)).emulator.sets? t = none) :
    s.LastSet t first (rest ++ [ev]) w where
  source := h.source
  since mid hmid := by
    obtain heq | hmid := List.prefix_concat_iff.1 hmid
    · obtain ⟨rfl, hcycle⟩ := List.append_inj' heq rfl
      exact hev (List.singleton_inj.1 hcycle).symm
    · exact h.since mid hmid

/-- Behind any events a timer holds the value that it was last given, less the ticks since. The
induction is on the events from the last one back. -/
theorem exists_lastSet [DecidableEq τ] (he : s.emulator.WellFormed) (t : Timer)
    (evs : List (Event τ)) :
    ∃ first rest w, evs = first ++ rest ∧ s.LastSet t first rest w ∧
      (s.after evs).emulator.machine.timer t = max 0 (w - rest.count .tick) := by
  induction evs using List.reverseRecOn with
  | nil =>
    refine ⟨[], [], _, rfl, .nil s t, ?_⟩
    have hnonneg := Machine.timer_nonneg he.machine t
    rw [List.count_nil, after_nil]
    omega
  | append_singleton evs ev ih =>
    obtain ⟨first, rest, w, rfl, hlast, hvalue⟩ := ih
    have hwell := after_wellFormed he (first ++ rest)
    have hafter : s.after (first ++ rest ++ [ev]) = ((s.after (first ++ rest)).act ev).2 := by
      rw [after_append]
      rfl
    rw [hafter]
    by_cases htick : ev = .tick
    · subst htick
      refine ⟨first, rest ++ [.tick], w, List.append_assoc .., hlast.append nofun, ?_⟩
      refine (Machine.timer_tick hwell.machine t).trans ?_
      rw [hvalue, List.count_append, List.count_singleton_self]
      omega
    have hcount : (rest ++ [ev]).count .tick = rest.count .tick := by
      rw [List.count_append, List.count_singleton, if_neg (by simpa using htick), Nat.add_zero]
    by_cases hcycle : ev = .cycle
    · subst hcycle
      rw [act, machine_cycle, Emulator.timer_cycle hwell]
      cases hsets : (s.after (first ++ rest)).emulator.sets? t with
      | none =>
        refine ⟨first, rest ++ [.cycle], w, List.append_assoc .., hlast.append fun _ => hsets, ?_⟩
        rw [hcount]
        exact hvalue
      | some v =>
        refine ⟨first ++ rest ++ [.cycle], [], v, (List.append_nil _).symm, .cycle hsets, ?_⟩
        have hnonneg := Emulator.sets?_nonneg hsets
        rw [List.count_nil, Option.getD_some]
        omega
    · refine ⟨first, rest ++ [ev], w, List.append_assoc .., hlast.append (absurd · hcycle), ?_⟩
      rw [machine_act _ htick hcycle, hcount]
      exact hvalue

/-! ## Runs -/

/-- **Ticking.** Wherever a run on an exact clock is cut behind the beginning of a turn, unless it
is while the turn catches up, as many ticks are made as there are numbers of ticks that have come
due at the latest of its turns. And wherever it is cut at all, a timer holds the value that it was
last given, less the ticks since. The readings can stand still, leap or go back. -/
theorem run_ticks {core : Option Rat} {limit : Option Int} {s : Session}
    (he : s.emulator.WellFormed) (start : Rat) (later : List Rat) :
    let evs := s.events (.exact core) limit (start :: later)
    let run := s.run (.exact core) limit (start :: later)
    s.after evs = run.2.1 ∧ evs.filterMap Event.reading? ++ run.2.2 = start :: later ∧
    ∀ pre post, evs = pre ++ post →
      (∀ latest, IsGreatest {now | .turn now ∈ pre} latest →
        post.head? ≠ some .report → post.head? ≠ some .tick →
        {k : ℕ | start + k / 60 ≤ latest}.encard = pre.count .tick) ∧
      ∀ t : Timer, ∃ first rest w, pre = first ++ rest ∧ s.LastSet t first rest w ∧
        (s.after pre).emulator.machine.timer t = max 0 (w - rest.count .tick) := by
  intro evs run
  refine ⟨after_events s _, readings_events _ _ s _, ?_⟩
  intro pre post heq
  refine ⟨?_, fun t => exists_lastSet he t pre⟩
  intro latest hlatest hreport htick
  exact encard_ticks heq hreport htick hlatest

/-- A clock that goes back once. The delay timer is set to five in the second turn and ticks twice
in the fourth. -/
theorem run_ticks_back :
    let program : List UInt8 := [0x61, 0x05, 0xF1, 0x15, 0x12, 0x04]
    let s : Session := { emulator := { machine := .fresh program, host := .still } }
    let later : List Rat := [0, 1 / 20, 1 / 60, 1 / 12]
    let evs := s.events (.exact none) none (0 :: later)
    s.emulator.WellFormed ∧ IsGreatest {now | .turn now ∈ evs} (1 / 12) ∧
      {k : ℕ | (0 : Rat) + k / 60 ≤ 1 / 12}.encard = 6 ∧
      (s.after evs).emulator.machine.timer .delay = 3 ∧
      ∃ first rest w, evs = first ++ rest ∧ s.LastSet .delay first rest w ∧
        max 0 (w - rest.count .tick) = 3 := by
  intro program s later evs
  have he : s.emulator.WellFormed := ⟨Machine.wellFormed_fresh (by decide), rfl⟩
  have hevs : evs = [
      .opening 0,
      .turn 0, .report, .tick, .poll, .sync, .refresh, .cycle, .count,
      .turn (1 / 20), .tick, .tick, .tick, .poll, .sync, .refresh, .cycle, .count,
      .turn (1 / 60), .cycle, .count,
      .turn (1 / 12), .tick, .tick, .poll, .sync, .refresh, .cycle, .count] := by decide +kernel
  have hlatest : IsGreatest {now | .turn now ∈ evs} (1 / 12) := by
    rw [hevs]
    constructor
    · rw [Set.mem_ofPred_eq]
      decide +kernel
    · intro now hnow
      simp only [Set.mem_ofPred_eq, List.mem_cons, Event.turn.injEq, reduceCtorEq, false_or,
        List.not_mem_nil, or_false] at hnow
      obtain rfl | rfl | rfl | rfl := hnow <;> decide +kernel
  have hthree : (s.after evs).emulator.machine.timer .delay = 3 := by
    rw [hevs]
    decide +kernel
  obtain ⟨-, -, hcut⟩ := run_ticks he 0 later
  obtain ⟨hticks, htimer⟩ := hcut evs [] (List.append_nil _).symm
  obtain ⟨first, rest, w, hsplit, hlast, hvalue⟩ := htimer .delay
  refine ⟨he, hlatest, ?_, hthree, first, rest, w, hsplit, hlast, hvalue.symm.trans hthree⟩
  rw [hticks _ hlatest nofun nofun, hevs]
  rfl

end Session

end Chip8
