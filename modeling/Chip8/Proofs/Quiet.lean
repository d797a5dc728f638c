import Chip8.Proofs.Event
import Chip8.Proofs.Footprint
import Chip8.Proofs.Painting

/-!
# What is painted and what is reported as an error

Instructions paint nothing and report no error, and neither does anything that happens to an
emulator from outside but a refresh, which can paint. An error is reported when a fault ends a run,
and then once.

* `Presenter.framesDrawn_refresh`: a refresh paints a frame if it says so.
* `Emulator.errors`: what is reported as an error.
* `Emulator.Quiet`: nothing is painted and no error is reported.
* `Emulator.quiet_cycle`, `Emulator.quiet_step`: so it is with cycles and other operations.
* `Ending.reported`: the error that is reported about an ending.
* `Session.errors_perform`: events report the error of the one that fails.
-/

namespace Chip8

/-! ## Presenters -/

namespace Presenter

/-- The frames that a refresh paints, by what it tells. -/
def framesOf : Except Error Bool → Nat
  | .ok true => 1
  | _ => 0

theorem framesDrawn_refresh (p : Presenter) (screen : Screen) :
    (p.refresh screen).2.framesDrawn = p.framesDrawn + framesOf (p.refresh screen).1 := by
  have hr := p.refresh_refreshed screen
  generalize p.refresh screen = r at hr ⊢
  cases hr <;> rfl

end Presenter

/-! ## Emulators -/

/-- An instruction that goes through does to its host what its kind does. -/
theorem Instr.host_of_exec {i : Instr} {m m' : Machine} {h h' : Host}
    (hexec : i.exec m h = .ok (m', h')) : h' = i.touch h := by
  have hmap : ∀ {x : Except Fault Machine} {f : Machine → Machine} {g : Host},
      x.map (fun a => (f a, g)) = .ok (m', h') → h' = g := by
    intro x f g hx
    cases x with
    | error => cases hx
    | ok a =>
      cases hx
      rfl
  obtain ⟨kind, x, y, n, kk, nnn⟩ := i
  cases kind with
  | ret | call | draw | readDelay | storeDecimal | storeRegs => exact hmap (f := id) hexec
  | loadRegs =>
    simp only [exec] at hexec
    cases hbytes : m.bytesAt m.index (x.val + 1) with
    | error =>
      rw [hbytes] at hexec
      cases hexec
    | ok bytes =>
      rw [hbytes] at hexec
      cases hexec
      rfl
  | _ =>
    cases hexec
    rfl

namespace Emulator

/-- What is reported as an error, oldest first. -/
def errors (e : Emulator) : List LogEntry := e.log.toList.filter (·.level = .error)

/-- On the way from one emulator to the other nothing is painted and no error is reported. -/
structure Quiet (e e' : Emulator) : Prop where
  /-- As many frames are painted. -/
  frames : e'.host.presenter.framesDrawn = e.host.presenter.framesDrawn
  /-- The same errors are reported. -/
  errors : e'.errors = e.errors

variable {e e' e'' : Emulator}

theorem Quiet.refl (e : Emulator) : e.Quiet e := ⟨rfl, rfl⟩

theorem Quiet.trans (h : e.Quiet e') (h' : e'.Quiet e'') : e.Quiet e'' :=
  ⟨h'.frames.trans h.frames, h'.errors.trans h.errors⟩

theorem errors_report (e : Emulator) (level : LogLevel) (source : LogSource) (text : String) :
    (e.report level source text).errors =
      e.errors ++ if level = .error then [⟨level, source, text⟩] else [] := by
  rw [errors, errors, filter_report]
  congr 1
  cases level <;> rfl

theorem quiet_report (e : Emulator) {level : LogLevel} (hlevel : level ≠ .error)
    (source : LogSource) (text : String) : e.Quiet (e.report level source text) where
  frames := rfl
  errors := by rw [errors_report, if_neg hlevel, List.append_nil]

theorem quiet_trace (e : Emulator) (i : Instr) : e.Quiet (e.trace i) := by
  unfold trace
  split
  · exact e.quiet_report (by decide) _ _
  · exact .refl e

theorem quiet_setMachineAt (e : Emulator) (k : Nat) (m : Machine) :
    e.Quiet (e.setMachineAt k m) where
  frames := by rw [host_setMachineAt]
  errors := by rw [errors, log_setMachineAt, errors]

theorem quiet_perform (e : Emulator) (h : Held) : e.Quiet (e.perform h).2 := by
  have hframes : ∀ {m m' : Machine} {host : Host}, h.instr.exec m e.host = .ok (m', host) →
      host.presenter.framesDrawn = e.host.presenter.framesDrawn := by
    intro m m' host hexec
    rw [Instr.host_of_exec hexec, Instr.touch_eq]
  have hset := e.quiet_setMachineAt h.owner
  unfold perform
  split
  · exact .refl e
  · rename_i machine host hexec
    exact ⟨hframes hexec, (hset machine).errors⟩

theorem quiet_cycle (e : Emulator) : e.Quiet e.cycle.2 := by
  apply cycle_invariant
  · intro e' k machine h
    exact h.trans (e'.quiet_setMachineAt k machine)
  · intro e' i h
    exact h.trans (e'.quiet_trace i)
  · intro e' held h
    exact h.trans (e'.quiet_perform held)
  · exact .refl e

theorem quiet_replace (e : Emulator) (m : Machine) : e.Quiet (e.replace m) := ⟨rfl, rfl⟩

theorem quiet_load (e : Emulator) (program : List UInt8) : e.Quiet (e.load program).2 := by
  unfold load
  split
  · cases Machine.loaded program with
    | error => exact e.quiet_replace _
    | ok m => exact (e.quiet_replace m).trans (quiet_report _ (by decide) _ _)
  · exact .refl e

theorem quiet_step (e : Emulator) {op : Operation} (hop : op ≠ .refresh) :
    e.Quiet (e.step op).2 := by
  cases op with
  | refresh => exact absurd rfl hop
  | cycle => exact e.quiet_cycle
  | load program => exact e.quiet_load program
  | boot => exact e.quiet_replace _
  | _ => exact ⟨rfl, rfl⟩

end Emulator

/-! ## Endings -/

/-- What is reported as an error about an ending that leaves a machine: where the program goes
wrong, all that the machine shows. -/
def Ending.reported (m : Machine) : Ending → List LogEntry
  | .fault (.decode _ _) | .fault (.stack _) =>
    [⟨.error, .runner, "Emulation halted.\n" ++ m.fullDump "???"⟩]
  | _ => []

/-- What is reported as an error about a result. -/
def reported {α : Type} (m : Machine) : Except Ending α → List LogEntry
  | .error e => e.reported m
  | .ok _ => []

namespace Session

variable {τ : Type} {s s' : Session} {r : Except Ending Unit} {ev : Event τ}
  {evs : List (Event τ)}

theorem quiet_syncPause (s : Session) : s.emulator.Quiet s.syncPause.emulator := by
  have hreport : ∀ text, s.emulator.Quiet (s.emulator.report .info .runner text) :=
    fun text => s.emulator.quiet_report (by decide) .runner text
  unfold syncPause
  split
  · exact ⟨(hreport "Paused").frames, (hreport "Paused").errors⟩
  · exact ⟨(hreport "Resumed").frames, (hreport "Resumed").errors⟩
  · exact .refl _

theorem errors_cycle (h : s.cycle = (r, s')) :
    s'.emulator.errors = s.emulator.errors ++ reported s'.emulator.machine r := by
  have hquiet := s.emulator.quiet_cycle.errors
  unfold cycle at h
  rcases hcycle : s.emulator.cycle with ⟨f | ⟨⟩, e⟩
  · rw [hcycle] at h hquiet
    cases h
    cases f with
    | decode | stack => exact (Emulator.errors_report ..).trans (congrArg (· ++ _) hquiet)
    | _ => exact hquiet.trans (List.append_nil _).symm
  · rw [hcycle] at h hquiet
    cases h
    rw [reported, List.append_nil]
    exact hquiet

/-- An event that fails for a fault of the program reports it, and no other event reports an
error. -/
theorem errors_act (h : s.act ev = (r, s')) :
    s'.emulator.errors = s.emulator.errors ++ reported s'.emulator.machine r := by
  cases ev with
  | cycle => exact errors_cycle h
  | opening | turn | wait | report | tick | count =>
    cases h
    exact (List.append_nil _).symm
  | poll =>
    have hnone : ∀ b c : Bool, reported s.emulator.machine (if b then .error .noSuchKey else
        if c then .error .quit else .ok () : Except Ending Unit) = [] := by
      intro b c
      cases b <;> cases c <;> rfl
    cases h
    exact (List.append_nil _).symm.trans (congrArg (s.emulator.errors ++ ·) (hnone _ _).symm)
  | sync =>
    cases h
    rw [reported, List.append_nil]
    exact s.quiet_syncPause.errors
  | refresh =>
    have hquiet : s.emulator.refresh.2.errors = s.emulator.errors := rfl
    simp only [act, refresh] at h
    rcases hrefresh : s.emulator.refresh with ⟨_ | _ | _, e⟩
    all_goals
      rw [hrefresh] at h hquiet
      cases h
      exact hquiet.trans (List.append_nil _).symm

/-- Events report the error of the one that fails, and nothing more. -/
theorem errors_perform (h : s.perform evs = (r, s')) :
    s'.emulator.errors = s.emulator.errors ++ reported s'.emulator.machine r := by
  induction evs generalizing s with
  | nil =>
    cases h
    exact (List.append_nil _).symm
  | cons ev evs ih =>
    rcases hact : s.act ev with ⟨e | ⟨⟩, t⟩
    · rw [perform_cons_error hact] at h
      cases h
      exact errors_act hact
    · rw [perform_cons_ok hact] at h
      rw [ih h, errors_act hact, reported, List.append_nil]

end Session

end Chip8
