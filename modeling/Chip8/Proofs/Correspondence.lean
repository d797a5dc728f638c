import Chip8.Proofs.Loading
import Chip8.Proofs.Mirror
import Chip8.Proofs.Painting

/-!
# Emulators that correspond

Two emulators are run side by side, with a relation between their machines. If the relation is kept
by instructions and by ticks, and faults show no difference between related machines, then the
emulators come to the same on every operation.

* `Machine.Bisimulation`: the relations that are kept, by the instructions of given kinds.
* `Emulator.Corresponds`: related machines, in the same mode, on hosts that are alike.
* `Emulator.cycle_corresponds`, `Emulator.step_corresponds`: a cycle, and any operation.
* `Emulator.run_corresponds`: operations in order, if all instructions keep the relation.
* `Emulator.BothShow`: what makes refreshes come to the same too.
-/

namespace Chip8

/-! ## Relations that are kept -/

/-- What an instruction comes to on two machines: the same fault, or related machines. -/
inductive Instr.Related (R : Machine → Machine → Prop) (i : Instr) (g k : Host) :
    Except Fault (Machine × Host) → Except Fault (Machine × Host) → Prop where
  | ok {m n : Machine} (h : R m n) :
    Related R i g k (.ok (m, i.touch g)) (.ok (n, i.touch k))
  | error (f : Fault) : Related R i g k (.error f) (.error f)

/-- The relation is kept by the instructions of the kinds `K` and by ticks, and the word that is
fetched next is the same. If that word is no instruction, what `view` shows of the fault is the same
too. -/
structure Machine.Bisimulation (R : Machine → Machine → Prop) (K : Kind → Prop)
    (view : Fault → Fault) : Prop where
  refl (m : Machine) : R m m
  word {m n : Machine} : R m n → m.wordAt m.ip = n.wordAt n.ip
  fault {m n : Machine} : R m n → ∀ w, view (.decode w m.ip) = view (.decode w n.ip)
  advance {m n : Machine} : R m n → R m.advance n.advance
  tick {m n : Machine} : R m n → R m.tick n.tick
  exec {i : Instr} {m n : Machine} {g k : Host} : K i.kind → m.WellFormed → n.WellFormed →
    R m n → g.Alike k → i.Related R g k (i.exec m g) (i.exec n k)

/-- On the way from two hosts to two others as many random values are drawn, and a redraw is asked
for on both or on neither. -/
def Host.UsedAlike (g k g' k' : Host) : Prop :=
  ∃ draws redraw, g.Uses g' draws redraw ∧ k.Uses k' draws redraw

theorem Host.UsedAlike.refl (g k : Host) : g.UsedAlike k g k := ⟨0, false, .refl g, .refl k⟩

theorem Host.UsedAlike.trans {g k g' k' g'' k'' : Host} (h : g.UsedAlike k g' k')
    (h' : g'.UsedAlike k' g'' k'') : g.UsedAlike k g'' k'' := by
  obtain ⟨j, b, hg, hk⟩ := h
  obtain ⟨j', b', hg', hk'⟩ := h'
  exact ⟨j + j', b || b', hg.trans hg', hk.trans hk'⟩

/-- What `view` shows of the fault in a failure, and every other failure. -/
def Failure.viewed (view : Fault → Fault) : Failure → Failure
  | .fault f => .fault (view f)
  | f => f

namespace Emulator

/-- Well-formed emulators in the same mode, with related machines, on hosts that are alike. -/
structure Corresponds (R : Machine → Machine → Prop) (e f : Emulator) : Prop where
  left : e.WellFormed
  right : f.WellFormed
  machine : R e.machine f.machine
  mode : e.mode = f.mode
  host : e.host.Alike f.host

/-- The instruction that the next cycle carries out, if any, is of one of the kinds. -/
def NextIn (K : Kind → Prop) (e : Emulator) : Prop :=
  e.mode = .running → ∀ k, Kind.ofWord? e.word = some k → K k

theorem nextIn_true {e : Emulator} : e.NextIn fun _ => True := fun _ _ _ => trivial

variable {R : Machine → Machine → Prop} {K : Kind → Prop} {view : Fault → Fault}
variable {e f : Emulator}

/-! ## Cycles -/

theorem Corresponds.advance (hR : Machine.Bisimulation R K view) (h : Corresponds R e f) :
    Corresponds R e.advance f.advance :=
  ⟨h.left.advance, h.right.advance, hR.advance h.machine, h.mode, h.host⟩

/-- Tracing leaves emulators as they correspond, also where one traces and the other does not. -/
theorem Corresponds.trace (h : Corresponds R e f) (i j : Instr) :
    Corresponds R (e.trace i) (f.trace j) where
  left := h.left.trace i
  right := h.right.trace j
  machine := by
    rw [machine_trace, machine_trace]
    exact h.machine
  mode := by
    rw [mode_trace, mode_trace]
    exact h.mode
  host := by
    rw [host_trace, host_trace]
    exact h.host

theorem usedAlike_trace (e f : Emulator) (i j : Instr) :
    e.host.UsedAlike f.host (e.trace i).host (f.trace j).host := by
  rw [host_trace, host_trace]
  exact .refl _ _

theorem cycle_corresponds (hR : Machine.Bisimulation R K view) (h : Corresponds R e f)
    (hK : e.NextIn K) :
    e.cycle.1.mapError view = f.cycle.1.mapError view ∧ Corresponds R e.cycle.2 f.cycle.2 ∧
      e.host.UsedAlike f.host e.cycle.2.host f.cycle.2.host := by
  have hword : e.word = f.word := hR.word h.machine
  cases hr : e.mode with
  | idle =>
    have hr' : f.mode = .idle := h.mode.symm.trans hr
    rw [cycle_idle hr, cycle_idle hr']
    exact ⟨rfl, h.trace _ _, usedAlike_trace ..⟩
  | running =>
    have hr' : f.mode = .running := h.mode.symm.trans hr
    have hwell := cycle_wellFormed h.left
    have hwell' := cycle_wellFormed h.right
    cases hi : Instr.ofWord? e.word with
    | none =>
      have hi' : Instr.ofWord? f.word = none := hword ▸ hi
      rw [cycle_undecoded h.left hr hi, cycle_undecoded h.right hr' hi']
      refine ⟨?_, h.advance hR, .refl _ _⟩
      rw [← hword]
      exact congrArg Except.error (hR.fault h.machine _)
    | some i =>
      have hi' : Instr.ofWord? f.word = some i := hword ▸ hi
      obtain ⟨draws, redraw, huses⟩ := i.touch_uses
      have hkind : K i.kind := by
        refine hK hr _ ?_
        rw [Kind.ofWord?_eq_some_iff]
        exact Instr.matches_of_ofWord? e.word_lt hi
      have hexec := hR.exec hkind h.left.machine.advance h.right.machine.advance
        (hR.advance h.machine) h.host
      rw [cycle_decoded h.left hr hi] at hwell ⊢
      rw [cycle_decoded h.right hr' hi'] at hwell' ⊢
      -- The outcomes become variables, so that the relation between them can be taken apart.
      generalize i.exec e.machine.advance e.host = r at hexec hwell ⊢
      generalize i.exec f.machine.advance f.host = r' at hexec hwell' ⊢
      cases hexec with
      | error fault =>
        exact ⟨rfl, (h.advance hR).trace i i, usedAlike_trace e.advance f.advance i i⟩
      | ok hrelated =>
        refine ⟨rfl, ⟨hwell, hwell', hrelated, ?_, i.touch_alike h.host⟩, draws, redraw,
          huses _, huses _⟩
        simp only [mode_trace]
        exact h.mode

/-! ## Operations -/

/-- A fault may be viewed before or after it becomes a failure. -/
theorem mapError_viewed (r : Except Fault Unit) :
    (r.mapError Failure.fault).mapError (Failure.viewed view) =
      (r.mapError view).mapError Failure.fault := by
  cases r <;> rfl

/-- A machine that replaces both is the same on both. -/
theorem replace_corresponds (hR : Machine.Bisimulation R K view) (h : Corresponds R e f)
    {m : Machine} (hm : m.WellFormed) :
    Corresponds R (e.replace m) (f.replace m) ∧
      e.host.UsedAlike f.host (e.replace m).host (f.replace m).host :=
  ⟨⟨replace_wellFormed e hm, replace_wellFormed f hm, hR.refl m, rfl, h.host⟩, .refl _ _⟩

theorem started_wellFormed (e : Emulator) {program : List UInt8} (h : program.length ≤ 3584) :
    (e.started program).WellFormed :=
  have hreplaced := replace_wellFormed e (Machine.wellFormed_fresh h)
  ⟨hreplaced.machine, hreplaced.decoder⟩

theorem load_corresponds (hR : Machine.Bisimulation R K view) (h : Corresponds R e f)
    (program : List UInt8) :
    (e.load program).1 = (f.load program).1 ∧
      Corresponds R (e.load program).2 (f.load program).2 ∧
      e.host.UsedAlike f.host (e.load program).2.host (f.load program).2.host := by
  rcases Nat.lt_or_ge 3584 program.length with hlong | hshort
  · rw [load_refused h.left.machine hlong, load_refused h.right.machine hlong]
    exact ⟨rfl, h, .refl _ _⟩
  · have hfresh := Machine.wellFormed_fresh hshort
    obtain ⟨hc, hu⟩ := replace_corresponds hR h hfresh
    rw [load_ok h.left.machine hshort, load_ok h.right.machine hshort]
    refine ⟨rfl, ?_, hu⟩
    exact { hc with left := started_wellFormed e hshort, right := started_wellFormed f hshort }

/-- No picture of the screen is refused in either of the windows that there are. -/
def BothShow (e f : Emulator) : Prop :=
  e.host.presenter.Shows (64, 32) ∧ f.host.presenter.Shows (64, 32)

theorem BothShow.step (h : e.BothShow f) (he : e.WellFormed) (hf : f.WellFormed)
    (op : Operation) : (e.step op).2.BothShow (f.step op).2 :=
  ⟨step_shows he h.1 op, step_shows hf h.2 op⟩

/-- Emulators that correspond come to the same on any operation, but for a refresh whose picture is
refused. But for refreshes, which see whether a redraw was due before, they use their hosts
alike. -/
theorem step_corresponds (hR : Machine.Bisimulation R K view) (h : Corresponds R e f)
    {op : Operation} (hK : op = .cycle → e.NextIn K) :
    ((op = .refresh → e.BothShow f) →
      (e.step op).1.mapError (Failure.viewed view) =
        (f.step op).1.mapError (Failure.viewed view)) ∧
      Corresponds R (e.step op).2 (f.step op).2 ∧
      (op ≠ .refresh → e.host.UsedAlike f.host (e.step op).2.host (f.step op).2.host) := by
  cases op with
  | load program =>
    obtain ⟨hr, hc, hu⟩ := load_corresponds hR h program
    refine ⟨fun _ => ?_, hc, fun _ => hu⟩
    rw [step, step, hr]
  | boot =>
    obtain ⟨hc, hu⟩ := replace_corresponds hR h Machine.wellFormed_booted
    exact ⟨fun _ => rfl, hc, fun _ => hu⟩
  | cycle =>
    obtain ⟨hr, hc, hu⟩ := cycle_corresponds hR h (hK rfl)
    refine ⟨fun _ => ?_, hc, fun _ => hu⟩
    rw [step, step, mapError_viewed, hr, mapError_viewed]
  | tick =>
    have hc : Corresponds R e.tick f.tick :=
      ⟨step_wellFormed h.left .tick, step_wellFormed h.right .tick, hR.tick h.machine, h.mode,
        h.host⟩
    exact ⟨fun _ => rfl, hc, fun _ => .refl _ _⟩
  | idle =>
    have hc : Corresponds R e.setIdle f.setIdle :=
      ⟨step_wellFormed h.left .idle, step_wellFormed h.right .idle, h.machine, rfl, h.host⟩
    exact ⟨fun _ => rfl, hc, fun _ => .refl _ _⟩
  | resume =>
    have hc : Corresponds R e.resume f.resume :=
      ⟨step_wellFormed h.left .resume, step_wellFormed h.right .resume, h.machine, rfl, h.host⟩
    exact ⟨fun _ => rfl, hc, fun _ => .refl _ _⟩
  | hold held =>
    have hc : Corresponds R (e.hold held) (f.hold held) :=
      ⟨step_wellFormed h.left (.hold held), step_wellFormed h.right (.hold held), h.machine, h.mode,
        rfl, h.host.upcoming⟩
    refine ⟨fun _ => rfl, hc, fun _ => ?_⟩
    exact ⟨0, false, ⟨rfl, (Bool.or_false _).symm⟩, ⟨rfl, (Bool.or_false _).symm⟩⟩
  | refresh =>
    refine ⟨fun hshow => ?_, ?_, fun hne => absurd rfl hne⟩
    · obtain ⟨hleft, hright⟩ := hshow rfl
      rw [step_refresh_ok h.left.machine hleft, step_refresh_ok h.right.machine hright]
    · exact ⟨step_wellFormed h.left .refresh, step_wellFormed h.right .refresh, h.machine, h.mode,
        h.host.held, h.host.upcoming⟩

/-- The induction is on the operations; a place in them is a place in their results. -/
theorem run_corresponds (hR : Machine.Bisimulation R (fun _ => True) view) (h : Corresponds R e f)
    (ops : List Operation) :
    (∀ k : Nat, (ops[k]? = some .refresh → e.BothShow f) →
        (e.run ops).1[k]?.map (·.mapError (Failure.viewed view)) =
          (f.run ops).1[k]?.map (·.mapError (Failure.viewed view))) ∧
      Corresponds R (e.run ops).2 (f.run ops).2 ∧
      (.refresh ∉ ops → e.host.UsedAlike f.host (e.run ops).2.host (f.run ops).2.host) := by
  induction ops generalizing e f with
  | nil => exact ⟨fun _ _ => rfl, h, fun _ => .refl _ _⟩
  | cons op ops ih =>
    obtain ⟨hr, hc, hu⟩ := step_corresponds hR h fun _ => nextIn_true
    obtain ⟨hrs, hcs, hus⟩ := ih hc
    refine ⟨?_, hcs, ?_⟩
    · intro k hshow
      rw [run, run]
      cases k with
      | zero => exact congrArg some (hr fun hop => hshow (congrArg some hop))
      | succ k => exact hrs k fun hop => (hshow hop).step h.left h.right op
    · intro hops
      rw [List.mem_cons, not_or] at hops
      exact (hu (Ne.symm hops.1)).trans (hus hops.2)

/-- Without refreshes the results are the same one by one. -/
theorem results_corresponds (hR : Machine.Bisimulation R (fun _ => True) view)
    (h : Corresponds R e f) {ops : List Operation} (hops : .refresh ∉ ops) :
    (e.run ops).1.map (·.mapError (Failure.viewed view)) =
      (f.run ops).1.map (·.mapError (Failure.viewed view)) := by
  refine List.ext_getElem? fun k => ?_
  rw [List.getElem?_map, List.getElem?_map]
  exact (run_corresponds hR h ops).1 k fun hop => absurd (List.mem_of_getElem? hop) hops

end Emulator

end Chip8
