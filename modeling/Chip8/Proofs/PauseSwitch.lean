import Chip8.Proofs.Cycle
import Chip8.Proofs.Plan
import Mathlib.Data.List.Chain

/-!
# The pause switch

The switch belongs to the user and the mode to the emulator. A run makes them agree right behind
each poll and nowhere else, so an instruction is carried out or put off as the switch stood at the
end of the last poll, and each change of mode is reported once.

* `Event.Synced`, `Session.synced_events`: in a run polls and syncs come in pairs.
* `Emulator.Steady`, `Session.steady_act`: what changes no mode and reports no such change.
* `Session.switches_act`, `Session.switches_after`: what is reported of changes of mode.
* `Session.FollowsSwitch`: the mode of each instruction, and the machine while the switch is off.
* `Session.run_follows_switch`: every run follows the switch.
-/

namespace Chip8

variable {τ : Type}

/-- A list with an element can be split where the element is last. -/
theorem exists_last_of_mem {α : Type} {a : α} {l : List α} (h : a ∈ l) :
    ∃ pre post, l = pre ++ a :: post ∧ a ∉ post := by
  obtain ⟨pre, post, hsplit, hpre⟩ := List.eq_append_cons_of_mem (List.mem_reverse.2 h)
  refine ⟨post.reverse, pre.reverse, ?_, fun hmem => hpre (List.mem_reverse.1 hmem)⟩
  rw [← List.reverse_reverse l, hsplit]
  simp

/-! ## Polls and syncs -/

namespace Event

/-- The event is a tick of the timers. -/
def isTick : Event τ → Bool
  | .tick => true
  | _ => false

/-- The event is a poll or a sync. -/
def OfSwitch : Event τ → Prop
  | .poll | .sync => True
  | _ => False

/-- Each poll has a sync right behind it, unless it is the last event, and no other sync is
there. -/
inductive Synced : List (Event τ) → Prop where
  /-- There are no events. -/
  | nil : Synced []
  /-- A poll ends the events. -/
  | last : Synced [.poll]
  /-- A poll has its sync. -/
  | pair {evs : List (Event τ)} (h : Synced evs) : Synced (.poll :: .sync :: evs)
  /-- The event is neither of them. -/
  | other {ev : Event τ} {evs : List (Event τ)} (hev : ¬ ev.OfSwitch) (h : Synced evs) :
    Synced (ev :: evs)

variable {pre mid post evs evs' : List (Event τ)}

theorem Synced.others (hevs : ∀ ev ∈ evs, ¬ ev.OfSwitch) (h : Synced evs') :
    Synced (evs ++ evs') := by
  induction evs with
  | nil => exact h
  | cons ev evs ih =>
    rw [List.forall_mem_cons] at hevs
    exact .other hevs.1 (ih hevs.2)

theorem Synced.isPrefix (h : Synced evs) (hp : evs' <+: evs) : Synced evs' := by
  induction h generalizing evs' with
  | nil =>
    rw [List.prefix_nil.1 hp]
    exact .nil
  | last =>
    obtain rfl | ⟨rest, rfl, hrest⟩ := List.prefix_cons_iff.1 hp
    · exact .nil
    · rw [List.prefix_nil.1 hrest]
      exact .last
  | pair _ ih =>
    obtain rfl | ⟨rest, rfl, hrest⟩ := List.prefix_cons_iff.1 hp
    · exact .nil
    · obtain rfl | ⟨rest, rfl, hrest'⟩ := List.prefix_cons_iff.1 hrest
      · exact .last
      · exact .pair (ih hrest')
  | other hev _ ih =>
    obtain rfl | ⟨rest, rfl, hrest⟩ := List.prefix_cons_iff.1 hp
    · exact .nil
    · exact .other hev (ih hrest)

/-- What is left of events is synced too, if it does not begin with the sync of a poll before
it. -/
theorem Synced.of_append (h : Synced (pre ++ evs)) (hhead : evs.head? ≠ some .sync) :
    Synced evs := by
  generalize hall : pre ++ evs = all at h
  induction h generalizing pre with
  | nil =>
    rw [(List.append_eq_nil_iff.1 hall).2]
    exact .nil
  | last =>
    obtain ⟨-, rfl⟩ | ⟨rest, -, hrest⟩ := List.append_eq_cons_iff.1 hall
    · exact .last
    · rw [(List.append_eq_nil_iff.1 hrest.symm).2]
      exact .nil
  | pair h ih =>
    obtain ⟨-, rfl⟩ | ⟨rest, -, hrest⟩ := List.append_eq_cons_iff.1 hall
    · exact .pair h
    · obtain ⟨-, rfl⟩ | ⟨rest, -, hrest⟩ := List.append_eq_cons_iff.1 hrest.symm
      · exact absurd rfl hhead
      · exact ih hrest.symm
  | other hev h ih =>
    obtain ⟨-, rfl⟩ | ⟨rest, -, hrest⟩ := List.append_eq_cons_iff.1 hall
    · exact .other hev h
    · exact ih hrest.symm

/-- Without a poll there is no sync. -/
theorem Synced.not_mem_sync (h : Synced (pre ++ post)) (hpoll : .poll ∉ pre) : .sync ∉ pre := by
  induction pre with
  | nil => exact List.not_mem_nil
  | cons ev pre ih =>
    rw [List.mem_cons, not_or] at hpoll ⊢
    generalize hall : ev :: pre ++ post = all at h
    cases h with
    | nil => cases hall
    | last | pair => exact absurd (List.cons.inj hall).1.symm hpoll.1
    | other hev h =>
      obtain ⟨rfl, rfl⟩ := List.cons.inj hall
      exact ⟨fun hsync => hev (hsync ▸ trivial), ih h hpoll.2⟩

/-- Between the last poll and an instruction there is the sync of the poll, and no other. -/
theorem Synced.of_last_poll (h : Synced (pre ++ .poll :: (mid ++ .cycle :: post)))
    (hmid : .poll ∉ mid) : ∃ rest, mid = .sync :: rest ∧ .sync ∉ rest := by
  have hpoll := h.of_append (by simp)
  generalize htail : mid ++ .cycle :: post = tail at hpoll
  cases hpoll with
  | last => exact absurd htail (by simp)
  | pair h =>
    obtain ⟨-, hcycle⟩ | ⟨rest, rfl, rfl⟩ := List.append_eq_cons_iff.1 htail
    · cases hcycle
    · exact ⟨rest, rfl, h.not_mem_sync fun hmem => hmid (List.mem_cons_of_mem _ hmem)⟩
  | other hev => exact absurd trivial hev

end Event

namespace Session

open Event

section Runs

variable [Add τ] [LE τ] [DecidableLE τ] {p : Pace τ} {limit : Option Int} {phase : Phase τ}
  {s s' : Session} {evs : List (Event τ)} {standing : Standing τ}

/-- Synced events behind the plan of a reading are synced together with it. -/
theorem synced_plan_append (p : Pace τ) (now : τ) (phase : Phase τ) (h : Synced evs) :
    Synced (phase.plan p now ++ evs) := by
  have hcount : ∀ c : Bool, Synced ((if c then [.count] else []) ++ evs) := by
    intro c
    refine .others (fun ev hev => ?_) h
    rw [Phase.eq_count_of_mem hev]
    exact id
  cases phase with
  | opening => exact .other id h
  | turn due =>
    have hcycle : Synced (.cycle :: ((if p.core.isNone then [.count] else []) ++ evs)) :=
      .other id (hcount p.core.isNone)
    simp only [Phase.plan, Pace.turnPlan, List.cons_append, List.append_assoc, List.nil_append]
    refine .other id (.others ?_ ?_)
    · intro ev hev
      obtain rfl | rfl := Pace.eq_of_mem_catchUp hev <;> exact id
    · split
      · exact .pair (.other id hcycle)
      · exact hcycle
  | waiting due wake =>
    have hwaited := hcount (wake ≤ now)
    simp only [decide_eq_true_eq] at hwaited
    exact .other id hwaited

theorem Ran.synced (h : Ran p limit phase s evs standing s') : Synced evs := by
  have hplan : ∀ (phase : Phase τ) (now : τ), Synced (phase.plan p now) := by
    intro phase now
    have happend := synced_plan_append p now phase .nil
    rwa [List.append_nil] at happend
  induction h with
  | still => exact .nil
  | failed => exact (hplan _ _).isPrefix (isPrefix_begun _ _)
  | finished => exact hplan _ _
  | more _ _ _ ih => exact synced_plan_append p _ _ ih

/-- In a run each poll has its sync, unless the run ends with it. -/
theorem synced_events (p : Pace τ) (limit : Option Int) (s : Session) (readings : List τ) :
    Synced (s.events p limit readings) := (ran_events p limit s readings).synced

end Runs

end Session

/-! ## Changes of mode -/

/-- What is reported when the mode changes. -/
def Mode.line : Mode → LogEntry
  | .idle => ⟨.info, .runner, "Paused"⟩
  | .running => ⟨.info, .runner, "Resumed"⟩

theorem Mode.line_inj {m m' : Mode} : m.line = m'.line ↔ m = m' := by
  cases m <;> cases m' <;> decide

namespace Emulator

/-- What is reported of changes of mode, oldest first. -/
def switches (e : Emulator) : List LogEntry :=
  e.log.toList.filter fun l => l = Mode.idle.line ∨ l = Mode.running.line

theorem switches_report (e : Emulator) (level : LogLevel) (source : LogSource) (text : String) :
    (e.report level source text).switches =
      e.switches ++ [(⟨level, source, text⟩ : LogEntry)].filter
        fun l => l = Mode.idle.line ∨ l = Mode.running.line :=
  e.filter_report level source text _

/-- On the way from one emulator to the other the mode stays, and no change of it is reported. -/
structure Steady (e e' : Emulator) : Prop where
  /-- The mode is the same. -/
  mode : e'.mode = e.mode
  /-- The same changes are reported. -/
  switches : e'.switches = e.switches

variable {e e' e'' : Emulator}

theorem Steady.refl (e : Emulator) : e.Steady e := ⟨rfl, rfl⟩

theorem Steady.trans (h : e.Steady e') (h' : e'.Steady e'') : e.Steady e'' :=
  ⟨h'.mode.trans h.mode, h'.switches.trans h.switches⟩

theorem steady_report (e : Emulator) {level : LogLevel} (hlevel : level ≠ .info)
    (source : LogSource) (text : String) : e.Steady (e.report level source text) where
  mode := rfl
  switches := by
    rw [switches_report]
    simp [Mode.line, hlevel]

theorem steady_trace (e : Emulator) (i : Instr) : e.Steady (e.trace i) := by
  unfold trace
  split
  · exact e.steady_report (by decide) _ _
  · exact .refl e

theorem steady_setMachineAt (e : Emulator) (k : Nat) (m : Machine) :
    e.Steady (e.setMachineAt k m) where
  mode := mode_setMachineAt
  switches := by rw [switches, log_setMachineAt, switches]

theorem steady_perform (e : Emulator) (h : Held) : e.Steady (e.perform h).2 := by
  have hset := e.steady_setMachineAt h.owner
  unfold perform
  split
  · exact .refl e
  · rename_i machine host hexec
    exact ⟨(hset machine).mode, (hset machine).switches⟩

theorem steady_cycle (e : Emulator) : e.Steady e.cycle.2 := by
  apply cycle_invariant
  · intro e' k machine h
    exact h.trans (e'.steady_setMachineAt k machine)
  · intro e' i h
    exact h.trans (e'.steady_trace i)
  · intro e' held h
    exact h.trans (e'.steady_perform held)
  · exact .refl e

end Emulator

namespace Session

variable {s : Session} {ev : Event τ} {evs : List (Event τ)}

/-- The switch is off: the user has paused the emulator. -/
def paused (s : Session) : Bool := s.emulator.host.keypad.paused

theorem steady_cycle (s : Session) : s.emulator.Steady s.cycle.2.emulator := by
  have hcycle := s.emulator.steady_cycle
  unfold cycle
  rcases hc : s.emulator.cycle with ⟨f | ⟨⟩, e⟩
  · rw [hc] at hcycle
    cases f with
    | decode | stack =>
      have herror : LogLevel.error ≠ .info := by decide
      exact hcycle.trans (e.steady_report herror _ _)
    | _ => exact hcycle
  · rwa [hc] at hcycle

/-- Only a sync changes the mode. -/
theorem steady_act (s : Session) (hev : ev ≠ .sync) : s.emulator.Steady (s.act ev).2.emulator := by
  cases ev with
  | sync => exact absurd rfl hev
  | cycle => exact s.steady_cycle
  | refresh =>
    have hsteady : s.emulator.Steady s.emulator.refresh.2 := ⟨rfl, rfl⟩
    simp only [act, refresh]
    rcases hrefresh : s.emulator.refresh with ⟨_ | _ | _, e⟩ <;> rwa [hrefresh] at hsteady
  | opening | turn | wait | report | tick | poll | count => exact ⟨rfl, rfl⟩

theorem isIdle_syncPause (s : Session) : s.syncPause.emulator.isIdle = s.paused := by
  unfold syncPause paused
  rcases hpaused : s.emulator.host.keypad.paused with _ | _ <;>
    rcases hmode : s.emulator.mode with _ | _ <;>
    simp [Emulator.isIdle, Emulator.setIdle, Emulator.resume, hmode]

theorem switches_syncPause (s : Session) :
    s.syncPause.emulator.switches =
      s.emulator.switches ++
        if s.syncPause.emulator.mode = s.emulator.mode then []
        else [s.syncPause.emulator.mode.line] := by
  unfold syncPause
  split
  · rename_i hmode
    rw [hmode]
    exact s.emulator.switches_report _ _ _
  · rename_i hmode
    rw [hmode]
    exact s.emulator.switches_report _ _ _
  · rw [if_pos rfl, List.append_nil]

theorem switches_act (s : Session) (ev : Event τ) :
    (s.act ev).2.emulator.switches =
      s.emulator.switches ++
        if (s.act ev).2.emulator.mode = s.emulator.mode then []
        else [(s.act ev).2.emulator.mode.line] := by
  by_cases hev : ev = .sync
  · subst hev
    exact s.switches_syncPause
  · have hsteady := s.steady_act hev
    rw [if_pos hsteady.mode, hsteady.switches, List.append_nil]

/-- Events report modes of which each is another than the one before. -/
theorem switches_after (s : Session) (evs : List (Event τ)) :
    ∃ modes : List Mode,
      (s.after evs).emulator.switches = s.emulator.switches ++ modes.map Mode.line ∧
        (s.emulator.mode :: modes).IsChain (· ≠ ·) := by
  induction evs generalizing s with
  | nil => exact ⟨[], (List.append_nil _).symm, .singleton _⟩
  | cons ev evs ih =>
    obtain ⟨modes, hswitches, hchain⟩ := ih (s.act ev).2
    rw [s.switches_act ev] at hswitches
    by_cases hmode : (s.act ev).2.emulator.mode = s.emulator.mode
    · rw [if_pos hmode, List.append_nil] at hswitches
      rw [hmode] at hchain
      exact ⟨modes, hswitches, hchain⟩
    · rw [if_neg hmode, List.append_assoc] at hswitches
      exact ⟨_ :: modes, hswitches, List.isChain_cons_cons.2 ⟨Ne.symm hmode, hchain⟩⟩

theorem mode_after (s : Session) (h : .sync ∉ evs) :
    (s.after evs).emulator.mode = s.emulator.mode := by
  induction evs generalizing s with
  | nil => rfl
  | cons ev evs ih =>
    rw [List.mem_cons, not_or] at h
    rw [after_cons, ih _ h.2, (s.steady_act (Ne.symm h.1)).mode]

theorem isIdle_after (s : Session) (h : .sync ∉ evs) :
    (s.after evs).emulator.isIdle = s.emulator.isIdle := by
  rw [Emulator.isIdle, s.mode_after h, Emulator.isIdle]

/-! ## Events that follow the switch -/

/-- While every instruction finds the emulator idle, the machine changes with the ticks alone. -/
theorem machine_after_of_idle (s : Session) {evs : List (Event τ)}
    (h : ∀ pre post, evs = pre ++ .cycle :: post → (s.after pre).emulator.isIdle = true) :
    (s.after evs).emulator.machine =
      (evs.countP Event.isTick).repeat Machine.tick s.emulator.machine := by
  induction evs using List.reverseRecOn with
  | nil => rfl
  | append_singleton evs ev ih =>
    have hbefore := ih fun pre post hcut => h pre (post ++ [ev]) (by simp [hcut])
    rw [after_append, after_cons, after_nil, List.countP_append]
    by_cases htick : ev = .tick
    · subst htick
      exact congrArg Machine.tick hbefore
    have hnone : [ev].countP Event.isTick = 0 := by
      cases ev with
      | tick => exact absurd rfl htick
      | _ => rfl
    rw [hnone, Nat.add_zero, ← hbefore]
    by_cases hcycle : ev = .cycle
    · subst hcycle
      have hidle := h evs [] rfl
      have hmode : (s.after evs).emulator.mode = .idle := by simpa [Emulator.isIdle] using hidle
      rw [act, machine_cycle, Emulator.cycle_idle hmode, Emulator.machine_trace]
    · exact machine_act _ htick hcycle

/-- Events follow the switch. -/
structure FollowsSwitch (s : Session) (evs : List (Event τ)) : Prop where
  /-- An instruction before the first poll finds the mode of the beginning. -/
  entry : ∀ pre post, evs = pre ++ .cycle :: post → .poll ∉ pre →
    (s.after pre).emulator.isIdle = s.emulator.isIdle
  /-- An instruction behind a poll finds the emulator as the switch stood at the end of the last
  one. -/
  polled : ∀ pre mid post, evs = pre ++ .poll :: (mid ++ .cycle :: post) → .poll ∉ mid →
    (s.after (pre ++ .poll :: mid)).emulator.isIdle = (s.after (pre ++ [.poll])).paused
  /-- From a poll on, for as long as it and those behind it end with the switch off, no instruction
  is carried out and the machine changes with the ticks alone. -/
  pause : ∀ pre mid post, evs = pre ++ .poll :: (mid ++ post) →
    (∀ pre' post', .poll :: mid = pre' ++ .poll :: post' →
      (s.after (pre ++ pre' ++ [.poll])).paused = true) →
    (∀ pre' post', mid = pre' ++ .cycle :: post' →
      (s.after (pre ++ .poll :: pre')).emulator.isIdle = true) ∧
    (s.after (pre ++ .poll :: mid)).emulator.machine =
      (mid.countP Event.isTick).repeat Machine.tick (s.after (pre ++ [.poll])).emulator.machine

theorem isIdle_of_last_poll (s : Session) {pre mid post : List (Event τ)}
    (h : Event.Synced (pre ++ .poll :: (mid ++ .cycle :: post))) (hmid : .poll ∉ mid) :
    (s.after (pre ++ .poll :: mid)).emulator.isIdle = (s.after (pre ++ [.poll])).paused := by
  obtain ⟨rest, rfl, hrest⟩ := h.of_last_poll hmid
  have hsplit : pre ++ .poll :: .sync :: rest = (pre ++ [.poll]) ++ (.sync :: rest) := by simp
  rw [hsplit, after_append, after_cons, isIdle_after _ hrest]
  exact isIdle_syncPause _

theorem isIdle_of_paused (s : Session) {pre mid post : List (Event τ)}
    (h : Event.Synced (pre ++ .poll :: (mid ++ .cycle :: post)))
    (hpaused : ∀ pre' post', .poll :: mid = pre' ++ .poll :: post' →
      (s.after (pre ++ pre' ++ [.poll])).paused = true) :
    (s.after (pre ++ .poll :: mid)).emulator.isIdle = true := by
  -- The last poll before the instruction is the first one or one of those behind it.
  have hmem : (.poll : Event τ) ∈ .poll :: mid := List.mem_cons_self
  obtain ⟨before, behind, hlast, hbehind⟩ := exists_last_of_mem hmem
  have hsynced : Event.Synced (pre ++ before ++ .poll :: (behind ++ .cycle :: post)) := by
    rw [← List.cons_append, hlast] at h
    simpa using h
  have hmode := s.isIdle_of_last_poll hsynced hbehind
  rwa [hpaused before behind hlast, List.append_assoc, ← hlast] at hmode

theorem followsSwitch (s : Session) {evs : List (Event τ)} (h : Event.Synced evs) :
    s.FollowsSwitch evs := by
  constructor
  case entry =>
    rintro pre post rfl hpre
    exact s.isIdle_after (h.not_mem_sync hpre)
  case polled =>
    rintro pre mid post rfl hmid
    exact s.isIdle_of_last_poll h hmid
  case pause =>
    rintro pre mid post rfl hpaused
    have hsplit : ∀ evs, pre ++ .poll :: evs = (pre ++ [.poll]) ++ evs := by simp
    have hidle : ∀ pre' post', mid = pre' ++ .cycle :: post' →
        (s.after (pre ++ .poll :: pre')).emulator.isIdle = true := by
      rintro pre' post' rfl
      rw [List.append_assoc, List.cons_append] at h
      refine s.isIdle_of_paused h fun before behind hcut => ?_
      refine hpaused before (behind ++ .cycle :: post') ?_
      rw [← List.cons_append, hcut, List.append_assoc, List.cons_append]
    refine ⟨hidle, ?_⟩
    rw [hsplit, after_append]
    apply machine_after_of_idle
    intro pre' post' hcut
    rw [← after_append, ← hsplit]
    exact hidle pre' post' hcut

/-- **The pause switch.** In a run each instruction finds the emulator idle iff the switch was off
at the end of the last poll, or as it was at the beginning before there is a poll. While the switch
is off no instruction is carried out and only ticks change the machine. What the run reports of
changes of mode alternates, and begins with the pause iff the emulator was not idle at first. -/
theorem run_follows_switch [Add τ] [LE τ] [DecidableLE τ] (p : Pace τ) (limit : Option Int)
    (s : Session) (readings : List τ) :
    let evs := s.events p limit readings
    let last := (s.run p limit readings).2.1
    s.after evs = last ∧ s.FollowsSwitch evs ∧
      ∃ lines, last.emulator.switches = s.emulator.switches ++ lines ∧
        lines.IsChain (· ≠ ·) ∧
        ∀ first, lines.head? = some first →
          (first = ⟨.info, .runner, "Paused"⟩ ↔ s.emulator.isIdle = false) := by
  intro evs last
  have hafter : s.after evs = last := after_events s readings
  have hfollows := s.followsSwitch (synced_events p limit s readings)
  obtain ⟨modes, hswitches, hchain⟩ := s.switches_after evs
  rw [hafter] at hswitches
  refine ⟨hafter, hfollows, modes.map Mode.line, hswitches, ?_, ?_⟩
  · rw [List.isChain_map]
    exact hchain.tail.imp fun _ _ hne heq => hne (Mode.line_inj.1 heq)
  · intro first hfirst
    cases modes with
    | nil => cases hfirst
    | cons mode modes =>
      cases hfirst
      have hne : s.emulator.mode ≠ mode := (List.isChain_cons_cons.1 hchain).1
      have hpause : mode.line = ⟨.info, .runner, "Paused"⟩ ↔ mode = .idle := by
        rw [← Mode.line_inj]
        rfl
      rw [hpause, Emulator.isIdle, decide_eq_false_iff_not]
      -- There are two modes, and the first change is to the other one.
      revert hne
      generalize s.emulator.mode = entry
      cases mode <;> cases entry <;> decide

/-- A poll that turns the switch twice is not reported. -/
example :
    let pace : Pace Nat :=
      { timer := 1, display := 1, report := 9, core := none, mostTicks := fun _ _ => 1 }
    let toggle : Poll := { signals := [.togglePause] }
    let twice : Poll := { signals := [.togglePause, .togglePause] }
    let s : Session := { emulator := { host := .still }, inbox := [toggle, twice, toggle] }
    let last := (s.run pace none [0, 0, 1, 2, 3]).2.1
    last.polls = 3 ∧ last.emulator.switches.map LogEntry.text = ["Paused", "Resumed"] := by
  decide +kernel

end Session

end Chip8
