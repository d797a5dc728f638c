import Chip8.Proofs.Quiet

/-!
# Reports and polls

A session counts its polls and keeps its reports, and it shows each report in the title of the
window, if there is one. Nothing else changes the title, whatever is executed, painted or loaded.

* `Session.made_after`: how many polls and reports events make.
* `Emulator.title?_step`: no operation changes the title.
* `Session.Titled`: the title is that of the last report, or the one at first.
* `Session.Titled.act`, `Session.Titled.after`: so it is behind any events.
-/

namespace Chip8

/-! ## Titles -/

namespace Presenter

theorem title?_setTitle (p : Presenter) (title : String) :
    (p.setTitle title).title? = p.title?.map fun _ => title := by
  rw [title?, title?, setTitle, Option.map_map, Option.map_map]
  rfl

theorem title?_refresh (p : Presenter) (screen : Screen) :
    (p.refresh screen).2.title? = p.title? := by
  have hr := p.refresh_refreshed screen
  generalize p.refresh screen = r at hr ⊢
  cases hr with
  | idle | failed => rfl
  | painted =>
    rw [title?, title?, Option.map_map]
    rfl

end Presenter

namespace Emulator

variable {e : Emulator}

/-- The title of the window, if there is one. -/
def title? (e : Emulator) : Option String := e.host.presenter.title?

theorem title?_perform (e : Emulator) (h : Held) : (e.perform h).2.title? = e.title? := by
  unfold perform
  split
  · rfl
  · rename_i machine host hexec
    show host.presenter.title? = e.host.presenter.title?
    rw [Instr.host_of_exec hexec, Instr.touch_eq]
    rfl

theorem title?_cycle (e : Emulator) : e.cycle.2.title? = e.title? := by
  refine cycle_invariant (P := fun e' => e'.title? = e.title?) ?_ ?_ ?_ rfl
  · intro e' k machine h
    rwa [title?, host_setMachineAt]
  · intro e' i h
    rwa [title?, host_trace]
  · intro e' held h
    exact (e'.title?_perform held).trans h

theorem title?_replace (e : Emulator) (m : Machine) : (e.replace m).title? = e.title? := rfl

theorem title?_load (e : Emulator) (program : List UInt8) :
    (e.load program).2.title? = e.title? := by
  unfold load
  split
  · cases Machine.loaded program with
    | error => exact e.title?_replace _
    | ok m => exact e.title?_replace m
  · rfl

theorem title?_step (e : Emulator) (op : Operation) : (e.step op).2.title? = e.title? := by
  cases op with
  | load program => exact e.title?_load program
  | boot => exact e.title?_replace _
  | cycle => exact e.title?_cycle
  | refresh => exact Presenter.title?_refresh _ _
  | tick | idle | resume | hold => rfl

end Emulator

namespace Session

variable {τ : Type} {s s' : Session} {first : Option String}

/-! ## How many reports and polls -/

/-- Only a poll makes a poll, and only a report makes a report. -/
theorem made_act [DecidableEq τ] (s : Session) (ev : Event τ) :
    (s.act ev).2.polls = s.polls + (if ev == .poll then 1 else 0) ∧
      (s.act ev).2.reports.size = s.reports.size + if ev == .report then 1 else 0 := by
  cases ev with
  | opening | turn | wait | tick | poll | count => exact ⟨rfl, rfl⟩
  | report => exact ⟨rfl, Array.size_push _⟩
  | sync =>
    simp only [act, syncPause]
    split <;> exact ⟨rfl, rfl⟩
  | refresh =>
    simp only [act, refresh]
    split <;> exact ⟨rfl, rfl⟩
  | cycle =>
    simp only [act, cycle]
    split <;> exact ⟨rfl, rfl⟩

/-- The polls and the reports of events come to those that were made before. -/
theorem made_after [DecidableEq τ] (s : Session) (evs : List (Event τ)) :
    (s.after evs).polls = s.polls + evs.count .poll ∧
      (s.after evs).reports.size = s.reports.size + evs.count .report := by
  induction evs generalizing s with
  | nil => exact ⟨rfl, rfl⟩
  | cons ev evs ih =>
    obtain ⟨hpolls, hreports⟩ := s.made_act ev
    obtain ⟨hpolls', hreports'⟩ := ih (s.act ev).2
    rw [after_cons, hpolls', hreports', hpolls, hreports, List.count_cons, List.count_cons]
    omega

/-! ## The title of a session -/

/-- The title is that of the last report. If none is made it is `first`, and without a window there
is none. -/
def Titled (s : Session) (first : Option String) : Prop :=
  s.emulator.title? = first.map fun old => (s.reports.back?.map Report.title).getD old

theorem titled_new (h : s.reports = #[]) : s.Titled s.emulator.title? := by
  rw [Titled, h]
  exact (Option.map_id' ..).symm

/-- Once there is a report, a window shows the last one. -/
theorem Titled.title?_eq {old : String} (h : s.Titled (some old)) {r : Report}
    (hr : s.reports.back? = some r) : s.emulator.title? = some r.title := by
  rw [h, hr]
  rfl

theorem Titled.congr (h : s.Titled first) (htitle : s'.emulator.title? = s.emulator.title?)
    (hreports : s'.reports = s.reports) : s'.Titled first := by
  rw [Titled, htitle, hreports]
  exact h

theorem Titled.report (h : s.Titled first) : s.report.Titled first := by
  have htitle : s.report.emulator.title? = s.emulator.title?.map fun _ =>
      Report.title { frames := s.tally.frames, ops := s.tally.ops } :=
    Presenter.title?_setTitle _ _
  rw [Titled, htitle, h, Session.report, Array.back?_push, Option.map_map]
  rfl

theorem Titled.act (h : s.Titled first) (ev : Event τ) : (s.act ev).2.Titled first := by
  cases ev with
  | opening | turn | wait | tick | poll | count => exact h.congr rfl rfl
  | report => exact h.report
  | sync =>
    simp only [Session.act, syncPause]
    split <;> exact h.congr rfl rfl
  | refresh =>
    have htitle : s.emulator.refresh.2.title? = s.emulator.title? := Presenter.title?_refresh _ _
    simp only [Session.act, Session.refresh]
    rcases hrefresh : s.emulator.refresh with ⟨_ | _ | _, e⟩ <;> rw [hrefresh] at htitle <;>
      exact h.congr htitle rfl
  | cycle =>
    have htitle := s.emulator.title?_cycle
    simp only [Session.act, Session.cycle]
    rcases hcycle : s.emulator.cycle with ⟨f | ⟨⟩, e⟩ <;> rw [hcycle] at htitle
    · cases f <;> exact h.congr htitle rfl
    · exact h.congr htitle rfl

theorem Titled.after (h : s.Titled first) (evs : List (Event τ)) :
    (s.after evs).Titled first := by
  induction evs generalizing s with
  | nil => exact h
  | cons ev evs ih => exact ih (h.act ev)

end Session

end Chip8
