import Chip8.Proofs.Operation
import Chip8.Session.Run

/-!
# Events of a run

What happens in a run of a session, one event at a time: the clock is read, and what has come due is
done. An event that fails ends the run.

* `Event`: what can happen.
* `Session.act`, `Session.perform`: one event, and events in order until one fails.
* `Session.begun`: of some events those that happen, the one that fails among them.
* `Session.after`: the session that events leave.
* `Session.act_error`: which events fail, and with what ending.
* `Session.machine_act`: which events change the machine.
* `Session.act_wellFormed`, `Session.after_wellFormed`: no event spoils the emulator.
-/

namespace Chip8

/-- What happens in a run. -/
inductive Event (τ : Type) where
  /-- The clock is read as the run opens. -/
  | opening (now : τ)
  /-- The clock is read as a turn begins. -/
  | turn (now : τ)
  /-- The clock is read while an instruction waits for its time to be over. -/
  | wait (now : τ)
  /-- A report is made. -/
  | report
  /-- The timers tick. -/
  | tick
  /-- The user's signals are polled. -/
  | poll
  /-- The emulator is put off or let go on, as the user wants it. -/
  | sync
  /-- The presenter is refreshed. -/
  | refresh
  /-- An instruction is carried out. -/
  | cycle
  /-- An instruction is counted. -/
  | count
deriving DecidableEq, Repr

namespace Event

variable {τ : Type}

/-- The event can end the session. -/
def CanFail : Event τ → Prop
  | .poll | .refresh | .cycle => True
  | _ => False

/-- The time that is read, if the event is a reading of the clock. -/
def reading? : Event τ → Option τ
  | .opening now | .turn now | .wait now => some now
  | _ => none

end Event

namespace Session

/-! ## Events in order -/

variable {τ : Type}

/-- What an event does to the session. A reading of the clock does nothing to it. -/
def act (s : Session) : Event τ → Except Ending Unit × Session
  | .opening _ | .turn _ | .wait _ => (.ok (), s)
  | .report => (.ok (), s.report)
  | .tick => (.ok (), { s with emulator := s.emulator.tick })
  | .poll => s.poll
  | .sync => (.ok (), s.syncPause)
  | .refresh => s.refresh
  | .cycle => s.cycle
  | .count => (.ok (), s.countOp)

/-- Events in order, until one fails. -/
def perform (s : Session) : List (Event τ) → Except Ending Unit × Session
  | [] => (.ok (), s)
  | ev :: evs =>
    match s.act ev with
    | (.error e, s) => (.error e, s)
    | (.ok (), s) => s.perform evs

/-- The events of a list up to the first that fails. -/
def begun (s : Session) : List (Event τ) → List (Event τ)
  | [] => []
  | ev :: evs =>
    match s.act ev with
    | (.error _, _) => [ev]
    | (.ok (), s) => ev :: s.begun evs

/-- The session behind events, whether or not they fail. -/
def after (s : Session) (evs : List (Event τ)) : Session := evs.foldl (fun s ev => (s.act ev).2) s

variable {s s' : Session} {ev : Event τ} {evs evs' : List (Event τ)} {e : Ending}

@[simp] theorem after_nil (s : Session) : s.after ([] : List (Event τ)) = s := rfl

@[simp] theorem after_cons (s : Session) (ev : Event τ) (evs : List (Event τ)) :
    s.after (ev :: evs) = (s.act ev).2.after evs := rfl

@[simp] theorem after_append (s : Session) (evs evs' : List (Event τ)) :
    s.after (evs ++ evs') = (s.after evs).after evs' := List.foldl_append

theorem perform_cons_ok (h : s.act ev = (.ok (), s')) : s.perform (ev :: evs) = s'.perform evs := by
  rw [perform, h]

theorem perform_cons_error (h : s.act ev = (.error e, s')) :
    s.perform (ev :: evs) = (.error e, s') := by
  rw [perform, h]

theorem perform_append (s : Session) (evs evs' : List (Event τ)) :
    s.perform (evs ++ evs') =
      match s.perform evs with
      | (.error e, s) => (.error e, s)
      | (.ok (), s) => s.perform evs' := by
  induction evs generalizing s with
  | nil => rfl
  | cons ev evs ih =>
    rw [List.cons_append]
    rcases h : s.act ev with ⟨e | ⟨⟩, s'⟩
    · rw [perform_cons_error h, perform_cons_error h]
    · rw [perform_cons_ok h, perform_cons_ok h]
      exact ih s'

theorem begun_of_perform_ok (h : s.perform evs = (.ok (), s')) : s.begun evs = evs := by
  induction evs generalizing s with
  | nil => rfl
  | cons ev evs ih =>
    rcases hact : s.act ev with ⟨e | ⟨⟩, t⟩
    · rw [perform_cons_error hact] at h
      cases h
    · rw [perform_cons_ok hact] at h
      simp only [begun, hact, ih h]

theorem begun_append_of_ok (h : s.perform evs = (.ok (), s')) :
    s.begun (evs ++ evs') = evs ++ s'.begun evs' := by
  induction evs generalizing s with
  | nil =>
    cases h
    rfl
  | cons ev evs ih =>
    rcases hact : s.act ev with ⟨e | ⟨⟩, t⟩
    · rw [perform_cons_error hact] at h
      cases h
    · rw [perform_cons_ok hact] at h
      simp only [List.cons_append, begun, hact, ih h]

/-- If performing events fails, one of them fails, with all before it going through. -/
theorem exists_of_perform_error (h : s.perform evs = (.error e, s')) :
    ∃ pre ev post, evs = pre ++ ev :: post ∧ s.begun evs = pre ++ [ev] ∧
      s.perform pre = (.ok (), s.after pre) ∧ (s.after pre).act ev = (.error e, s') := by
  induction evs generalizing s with
  | nil => cases h
  | cons first evs ih =>
    rcases hact : s.act first with ⟨e' | ⟨⟩, t⟩
    · rw [perform_cons_error hact] at h
      cases h
      exact ⟨[], first, evs, rfl, by simp only [begun, hact, List.nil_append], rfl, hact⟩
    · rw [perform_cons_ok hact] at h
      obtain ⟨pre, ev, post, rfl, hbegun, hpre, hev⟩ := ih h
      have hafter : s.after (first :: pre) = t.after pre := by rw [after_cons, hact]
      refine ⟨first :: pre, ev, post, rfl, ?_, ?_, ?_⟩
      · simp only [begun, hact, hbegun, List.cons_append]
      · rw [perform_cons_ok hact, hpre, hafter]
      · rw [hafter, hev]

/-- Of events that are begun only the last can fail, and performing them then fails with it. -/
theorem eq_nil_of_act_error {pre post : List (Event τ)} (hbegun : s.begun evs = pre ++ ev :: post)
    (hact : ((s.after pre).act ev).1 = .error e) :
    post = [] ∧ (s.perform evs).1 = .error e := by
  induction evs generalizing s pre with
  | nil => exact absurd hbegun.symm (List.append_ne_nil_of_right_ne_nil _ (List.cons_ne_nil _ _))
  | cons first evs ih =>
    rcases hfirst : s.act first with ⟨e' | ⟨⟩, t⟩
    · simp only [begun, hfirst] at hbegun
      obtain ⟨rfl, hev⟩ | ⟨rest, -, hnil⟩ := List.cons_eq_append_iff.1 hbegun
      · obtain ⟨rfl, rfl⟩ := List.cons.inj hev
        rw [after_nil, hfirst] at hact
        cases hact
        exact ⟨rfl, by rw [perform_cons_error hfirst]⟩
      · exact absurd hnil.symm (List.append_ne_nil_of_right_ne_nil _ (List.cons_ne_nil _ _))
    · simp only [begun, hfirst] at hbegun
      rw [perform_cons_ok hfirst]
      obtain ⟨rfl, hev⟩ | ⟨rest, rfl, hrest⟩ := List.cons_eq_append_iff.1 hbegun
      · obtain ⟨rfl, -⟩ := List.cons.inj hev
        rw [after_nil, hfirst] at hact
        cases hact
      · rw [after_cons, hfirst] at hact
        exact ih hrest hact

/-- Events that are begun lead where performing the events leads. -/
theorem after_begun (s : Session) (evs : List (Event τ)) :
    s.after (s.begun evs) = (s.perform evs).2 := by
  induction evs generalizing s with
  | nil => rfl
  | cons ev evs ih =>
    rcases hact : s.act ev with ⟨e | ⟨⟩, s'⟩
    · simp only [begun, perform, hact, after_cons, after_nil]
    · simp only [begun, perform, hact, after_cons, ih]

theorem after_of_perform_ok (h : s.perform evs = (.ok (), s')) : s.after evs = s' := by
  have hbegun := s.after_begun evs
  rwa [begun_of_perform_ok h, h] at hbegun

theorem isPrefix_begun (s : Session) (evs : List (Event τ)) : s.begun evs <+: evs := by
  rcases h : s.perform evs with ⟨e | ⟨⟩, s'⟩
  · obtain ⟨pre, ev, post, rfl, hbegun, -⟩ := exists_of_perform_error h
    rw [hbegun]
    exact ⟨post, List.append_assoc pre [ev] post⟩
  · exact ⟨[], by rw [begun_of_perform_ok h, List.append_nil]⟩

/-- Of some events the first one always happens. -/
theorem exists_begun_cons (s : Session) (ev : Event τ) (evs : List (Event τ)) :
    ∃ done, s.begun (ev :: evs) = ev :: done ∧ done <+: evs := by
  rw [begun]
  rcases s.act ev with ⟨e | ⟨⟩, s'⟩
  · exact ⟨[], rfl, List.nil_prefix⟩
  · exact ⟨_, rfl, isPrefix_begun s' evs⟩

/-- Which events fail, and with what ending. -/
theorem act_error (h : s.act ev = (.error e, s')) :
    ev = .poll ∧ (e = .quit ∨ e = .noSuchKey) ∨ ev = .refresh ∧ (∃ error, e = .paint error) ∨
      ev = .cycle ∧ ∃ f, e = .fault f := by
  cases ev with
  | opening | turn | wait | report | tick | sync | count => cases h
  | poll =>
    refine .inl ⟨rfl, ?_⟩
    have hr : (s.poll).1 = .error e := congrArg Prod.fst h
    simp only [poll] at hr
    split at hr
    · cases hr
      exact .inr rfl
    · split at hr
      · cases hr
        exact .inl rfl
      · cases hr
  | refresh =>
    refine .inr (.inl ⟨rfl, ?_⟩)
    have hr : (s.refresh).1 = .error e := congrArg Prod.fst h
    unfold refresh at hr
    split at hr
    · cases hr
      exact ⟨_, rfl⟩
    · cases hr
    · cases hr
  | cycle =>
    refine .inr (.inr ⟨rfl, ?_⟩)
    have hr : (s.cycle).1 = .error e := congrArg Prod.fst h
    unfold cycle at hr
    split at hr
    · cases hr
    · cases hr
      exact ⟨_, rfl⟩

theorem canFail_of_act_error (h : s.act ev = (.error e, s')) : ev.CanFail := by
  obtain ⟨rfl, -⟩ | ⟨rfl, -⟩ | ⟨rfl, -⟩ := act_error h <;> exact trivial

theorem perform_of_not_canFail (h : ∀ ev ∈ evs, ¬ ev.CanFail) (s : Session) :
    s.perform evs = (.ok (), s.after evs) := by
  rcases hperform : s.perform evs with ⟨e | ⟨⟩, s'⟩
  · obtain ⟨pre, ev, post, rfl, -, -, hact⟩ := exists_of_perform_error hperform
    have hmem : ev ∈ pre ++ ev :: post := List.mem_append_right _ List.mem_cons_self
    exact absurd (canFail_of_act_error hact) (h ev hmem)
  · rw [after_of_perform_ok hperform]

theorem ne_finished_of_act_error (h : s.act ev = (.error e, s')) : e ≠ .finished := by
  obtain ⟨-, rfl | rfl⟩ | ⟨-, _, rfl⟩ | ⟨-, _, rfl⟩ := act_error h <;> nofun

theorem perform_ticks (s : Session) (n : Nat) :
    s.perform (List.replicate n (.tick : Event τ)) =
      (.ok (), { s with emulator := n.repeat Emulator.tick s.emulator }) := by
  induction n with
  | zero => rfl
  | succ n ih =>
    rw [List.replicate_succ', perform_append, ih]
    rfl

/-! ## The machine of a session -/

theorem machine_cycle (s : Session) :
    s.cycle.2.emulator.machine = s.emulator.cycle.2.machine := by
  unfold cycle
  rcases s.emulator.cycle with ⟨f | ⟨⟩, e⟩
  · cases f <;> rfl
  · rfl

/-- Ticks and instructions alone change the machine. -/
theorem machine_act (s : Session) {ev : Event τ} (htick : ev ≠ .tick) (hcycle : ev ≠ .cycle) :
    (s.act ev).2.emulator.machine = s.emulator.machine := by
  cases ev with
  | opening | turn | wait | report | poll | count => rfl
  | tick => exact absurd rfl htick
  | cycle => exact absurd rfl hcycle
  | sync =>
    simp only [act, syncPause]
    split <;> rfl
  | refresh =>
    have hmachine : s.emulator.refresh.2.machine = s.emulator.machine := rfl
    simp only [act, refresh]
    rcases hrefresh : s.emulator.refresh with ⟨_ | _ | _, e⟩ <;> rwa [hrefresh] at hmachine

theorem act_wellFormed (he : s.emulator.WellFormed) (ev : Event τ) :
    (s.act ev).2.emulator.WellFormed := by
  cases ev with
  | opening | turn | wait | report | poll | count => exact ⟨he.machine, he.decoder⟩
  | tick => exact ⟨he.machine.tick, he.decoder⟩
  | sync =>
    simp only [act, syncPause]
    split <;> exact ⟨he.machine, he.decoder⟩
  | refresh =>
    have hrefreshed : s.emulator.refresh.2.WellFormed := ⟨he.machine, he.decoder⟩
    simp only [act, refresh]
    rcases hrefresh : s.emulator.refresh with ⟨_ | _ | _, e⟩ <;> rwa [hrefresh] at hrefreshed
  | cycle =>
    have hcycled := Emulator.cycle_wellFormed he
    simp only [act, cycle]
    rcases hcycle : s.emulator.cycle with ⟨f | ⟨⟩, e⟩ <;> rw [hcycle] at hcycled
    · cases f <;> exact ⟨hcycled.machine, hcycled.decoder⟩
    · exact hcycled

theorem after_wellFormed (he : s.emulator.WellFormed) (evs : List (Event τ)) :
    (s.after evs).emulator.WellFormed := by
  induction evs generalizing s with
  | nil => exact he
  | cons ev evs ih => exact ih (act_wellFormed he ev)

end Session

end Chip8
