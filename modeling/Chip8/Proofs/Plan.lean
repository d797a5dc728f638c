import Chip8.Proofs.Event

/-!
# What the readings of a clock bring

What a reading brings to a run is planned from the time and the phase of the run alone, and of what
is planned all happens up to the first event that fails.

* `Phase.plan`: the events that a reading brings if none of them fails.
* `Session.feed_eq`: a reading is taken by performing its plan.
* `Session.events`: the events of a run.
* `Session.Ran`, `Session.ran_events`: how a run is made up of the plans of its readings.
* `Session.Ran.of_begun`: induction on the readings of a run.
* `Session.readings_events`: the readings of a run are events in order.
* `Session.after_events`: the events of a run lead where the run leads.
-/

namespace Chip8

variable {τ : Type}

/-- Where a run stands as it comes to a phase: a turn is only begun if the limit of instructions is
not reached. -/
def Session.enter (limit : Option Int) (s : Session) : Phase τ → Standing τ
  | .turn due => if s.reached limit then .error .finished else .ok (.turn due)
  | phase => .ok phase

theorem Session.enter_error {limit : Option Int} {s : Session} {phase : Phase τ} {e : Ending}
    (h : s.enter limit phase = .error e) :
    e = .finished ∧ s.reached limit = true ∧ ∃ due, phase = .turn due := by
  cases phase with
  | opening | waiting => cases h
  | turn due =>
    by_cases hreached : s.reached limit = true
    · rw [enter, if_pos hreached] at h
      cases h
      exact ⟨rfl, hreached, due, rfl⟩
    · rw [enter, if_neg hreached] at h
      cases h

theorem Session.enter_ok {limit : Option Int} {s : Session} {phase phase' : Phase τ}
    (h : s.enter limit phase = .ok phase') :
    phase' = phase ∧ ∀ due, phase = .turn due → s.reached limit = false := by
  cases phase with
  | opening | waiting =>
    cases h
    exact ⟨rfl, nofun⟩
  | turn due =>
    rw [enter] at h
    split at h
    · cases h
    · rename_i hreached
      cases h
      exact ⟨rfl, fun _ _ => Bool.not_eq_true _ ▸ hreached⟩

theorem Pace.eq_of_mem_display [LE τ] [DecidableLE τ] {due now : τ} {ev : Event τ}
    (h : ev ∈ (if due ≤ now then [.poll, .sync, .refresh] else [] : List (Event τ))) :
    ev = .poll ∨ ev = .sync ∨ ev = .refresh := by
  split at h
  · simpa only [List.mem_cons, List.not_mem_nil, or_false] using h
  · cases h

theorem Phase.eq_count_of_mem {c : Prop} [Decidable c] {ev : Event τ}
    (h : ev ∈ (if c then [.count] else [] : List (Event τ))) : ev = .count := by
  split at h
  · exact List.mem_singleton.1 h
  · cases h

variable [Add τ] [LE τ] [DecidableLE τ]

/-! ## Plans -/

/-- What a turn brings first behind its reading of the clock: a report and ticks if they are due. -/
def Pace.catchUp (p : Pace τ) (due : Schedule τ) (now : τ) : List (Event τ) :=
  (if due.report ≤ now then [.report] else []) ++ List.replicate (p.ticksDue due.tick now).1 .tick

/-- What a turn brings behind its reading of the clock. After what it catches up on there is a
refresh if it is due, then an instruction. -/
def Pace.turnPlan (p : Pace τ) (due : Schedule τ) (now : τ) : List (Event τ) :=
  p.catchUp due now ++ ((if due.display ≤ now then [.poll, .sync, .refresh] else []) ++ [.cycle])

theorem Pace.eq_of_mem_catchUp {p : Pace τ} {due : Schedule τ} {now : τ} {ev : Event τ}
    (h : ev ∈ p.catchUp due now) : ev = .report ∨ ev = .tick := by
  obtain h | h := List.mem_append.1 h
  · split at h
    · exact .inl (List.mem_singleton.1 h)
    · cases h
  · exact .inr (List.eq_of_mem_replicate h)

/-- What is due next after a turn. -/
def Schedule.advance (due : Schedule τ) (p : Pace τ) (now : τ) : Schedule τ where
  report := if due.report ≤ now then now + p.report else due.report
  tick := (p.ticksDue due.tick now).2
  display := if due.display ≤ now then now + p.display else due.display

namespace Phase

/-- The events that a reading brings if none of them fails. An instruction counts at once if none
has to wait, and else when its wait is over. -/
def plan (p : Pace τ) (now : τ) : Phase τ → List (Event τ)
  | .opening => [.opening now]
  | .turn due => .turn now :: (p.turnPlan due now ++ if p.core.isNone then [.count] else [])
  | .waiting _ wake => .wait now :: if wake ≤ now then [.count] else []

/-- The phase behind a reading whose plan goes through. -/
def next (p : Pace τ) (now : τ) : Phase τ → Phase τ
  | .opening => .turn (.start now)
  | .turn due =>
    match p.core with
    | none => .turn (due.advance p now)
    | some wait => .waiting (due.advance p now) (now + wait)
  | .waiting due wake => if wake ≤ now then .turn due else .waiting due wake

/-- A plan begins with the reading for which it is made, and has no other. -/
theorem plan_eq_cons (p : Pace τ) (now : τ) (phase : Phase τ) :
    ∃ first rest, phase.plan p now = first :: rest ∧ first.reading? = some now ∧
      ¬ first.CanFail ∧ ∀ ev ∈ rest, ev.reading? = none := by
  cases phase with
  | opening => exact ⟨_, _, rfl, rfl, id, nofun⟩
  | turn due =>
    refine ⟨_, _, rfl, rfl, id, fun ev hev => ?_⟩
    simp only [Pace.turnPlan, List.mem_append, List.mem_singleton] at hev
    obtain (hev | hev | rfl) | hev := hev
    · obtain rfl | rfl := Pace.eq_of_mem_catchUp hev <;> rfl
    · obtain rfl | rfl | rfl := Pace.eq_of_mem_display hev <;> rfl
    · rfl
    · rw [eq_count_of_mem hev]
      rfl
  | waiting due wake =>
    refine ⟨_, _, rfl, rfl, id, fun ev hev => ?_⟩
    rw [eq_count_of_mem hev]
    rfl

end Phase

namespace Session

/-! ## Readings and their plans -/

variable (p : Pace τ) (limit : Option Int)

theorem reportDue_eq (s : Session) (due now : τ) :
    s.perform (if due ≤ now then [.report] else [] : List (Event τ)) =
      (.ok (), (s.reportDue p due now).2) := by
  by_cases hdue : due ≤ now
  · rw [if_pos hdue, reportDue, if_pos hdue]
    rfl
  · rw [if_neg hdue, reportDue, if_neg hdue]
    rfl

theorem displayDue_eq (s : Session) (due now : τ) :
    s.displayDue p due now =
      match s.perform (if due ≤ now then [.poll, .sync, .refresh] else [] : List (Event τ)) with
      | (.error e, s) => (.error e, s)
      | (.ok (), s) => (.ok (if due ≤ now then now + p.display else due), s) := by
  by_cases hdue : due ≤ now
  · simp only [displayDue, if_pos hdue, perform, act]
    rcases s.poll with ⟨e | ⟨⟩, s⟩
    · rfl
    · simp only
      rcases s.syncPause.refresh with ⟨e | ⟨⟩, s⟩ <;> rfl
  · simp only [displayDue, if_neg hdue, perform]

/-- A turn performs its plan. -/
theorem turn_eq (s : Session) (due : Schedule τ) (now : τ) :
    s.turn p due now =
      match s.perform (p.turnPlan due now) with
      | (.error e, s) => (.error e, s)
      | (.ok (), s) => (.ok (due.advance p now), s) := by
  have hreport : s.reportDue p due.report now =
      ((due.advance p now).report, (s.reportDue p due.report now).2) := by
    simp only [reportDue, Schedule.advance]
    split <;> rfl
  rw [Pace.turnPlan, Pace.catchUp, List.append_assoc, perform_append, reportDue_eq p, turn, hreport]
  simp only [perform_append, perform_ticks, ticksDue, displayDue_eq]
  generalize Session.perform _ _ = r
  rcases r with ⟨e | ⟨⟩, s⟩
  · rfl
  · simp only [perform, act]
    rcases s.cycle with ⟨e | ⟨⟩, s⟩ <;> rfl

/-- A reading is taken by performing its plan. -/
theorem feed_eq (phase : Phase τ) (s : Session) (now : τ) :
    s.feed p limit phase now =
      match s.perform (phase.plan p now) with
      | (.error e, s) => (.error e, s)
      | (.ok (), s) => (s.enter limit (phase.next p now), s) := by
  cases phase with
  | opening => rfl
  | turn due =>
    simp only [feed, turn_eq, Phase.plan, Phase.next, perform, act, perform_append]
    rcases s.perform (p.turnPlan due now) with ⟨e | ⟨⟩, s⟩
    · rfl
    · cases p.core <;> rfl
  | waiting due wake =>
    simp only [feed, Phase.plan, Phase.next, perform, act]
    by_cases hwake : wake ≤ now
    · simp only [if_pos hwake]
      rfl
    · simp only [if_neg hwake]
      rfl

/-- The events that readings bring to a run. -/
def eventsFrom (phase : Phase τ) (s : Session) : List τ → List (Event τ)
  | [] => []
  | now :: later =>
    s.begun (phase.plan p now) ++
      match s.feed p limit phase now with
      | (.error _, _) => []
      | (.ok phase, s) => s.eventsFrom phase later

/-- The events of a run. -/
def events (s : Session) (readings : List τ) : List (Event τ) :=
  s.eventsFrom p limit .opening readings

theorem events_cons (s : Session) (now : τ) (later : List τ) :
    s.events p limit (now :: later) =
      .opening now ::
        if s.reached limit then [] else s.eventsFrom p limit (.turn (.start now)) later := by
  rw [events, eventsFrom]
  cases hreached : s.reached limit <;> simp [Phase.plan, begun, act, feed, Session.next, hreached]

/-- How a run is made up of the plans of its readings: the phase and the session that it goes on
from, its events, where it then stands, and the session that it leaves. -/
inductive Ran : Phase τ → Session → List (Event τ) → Standing τ → Session → Prop where
  /-- There is no reading to go on with. -/
  | still (phase : Phase τ) (s : Session) : Ran phase s [] (.ok phase) s
  /-- The plan of a reading fails. -/
  | failed {phase : Phase τ} {s s' : Session} {now : τ} {e : Ending}
    (hplan : s.perform (phase.plan p now) = (.error e, s')) :
    Ran phase s (s.begun (phase.plan p now)) (.error e) s'
  /-- The plan of a reading reaches the limit of instructions. -/
  | finished {phase : Phase τ} {s s' : Session} {now : τ} {due : Schedule τ}
    (hplan : s.perform (phase.plan p now) = (.ok (), s'))
    (hnext : phase.next p now = .turn due) (hreached : s'.reached limit = true) :
    Ran phase s (phase.plan p now) (.error .finished) s'
  /-- The plan of a reading goes through, and the run goes on. -/
  | more {phase : Phase τ} {s s' s'' : Session} {now : τ} {evs : List (Event τ)}
    {standing : Standing τ} (hplan : s.perform (phase.plan p now) = (.ok (), s'))
    (hon : ∀ due, phase.next p now = .turn due → s'.reached limit = false)
    (hrest : Ran (phase.next p now) s' evs standing s'') :
    Ran phase s (phase.plan p now ++ evs) standing s''

theorem ran_eventsFrom (phase : Phase τ) (s : Session) (readings : List τ) :
    Ran p limit phase s (s.eventsFrom p limit phase readings)
      (s.runFrom p limit phase readings).1 (s.runFrom p limit phase readings).2.1 := by
  induction readings generalizing phase s with
  | nil => exact .still phase s
  | cons now later ih =>
    rw [eventsFrom, runFrom, feed_eq]
    rcases hplan : s.perform (phase.plan p now) with ⟨e | ⟨⟩, s'⟩
    · simp only [List.append_nil]
      exact .failed hplan
    · rw [begun_of_perform_ok hplan]
      simp only
      cases henter : s'.enter limit (phase.next p now) with
      | error e =>
        obtain ⟨rfl, hreached, due, hnext⟩ := enter_error henter
        simp only [List.append_nil]
        exact .finished hplan hnext hreached
      | ok phase' =>
        obtain ⟨rfl, hon⟩ := enter_ok henter
        exact .more hplan hon (ih _ s')

/-- Every run is made up of the plans of its readings. -/
theorem ran_events (s : Session) (readings : List τ) :
    Ran p limit .opening s (s.events p limit readings) (s.run p limit readings).1
      (s.run p limit readings).2.1 := ran_eventsFrom p limit .opening s readings

/-- Of what a reading brings it is the only reading. -/
theorem filterMap_reading?_begun (s : Session) (phase : Phase τ) (now : τ) :
    (s.begun (phase.plan p now)).filterMap Event.reading? = [now] := by
  obtain ⟨first, rest, hplan, hfirst, hfail, hrest⟩ := phase.plan_eq_cons p now
  have hok := perform_of_not_canFail (List.forall_mem_singleton.2 hfail) s
  have hnone : (((s.after [first]).begun rest).filterMap Event.reading?) = [] := by
    rw [List.filterMap_eq_nil_iff]
    exact fun ev hev => hrest ev ((isPrefix_begun _ _).subset hev)
  rw [hplan, ← List.singleton_append, begun_append_of_ok hok, List.filterMap_append, hnone,
    List.append_nil, List.filterMap_cons_some hfirst, List.filterMap_nil]

/-- Of the readings taken each is an event, in order. -/
theorem readings_eventsFrom (phase : Phase τ) (s : Session) (readings : List τ) :
    (s.eventsFrom p limit phase readings).filterMap Event.reading? ++
      (s.runFrom p limit phase readings).2.2 = readings := by
  induction readings generalizing phase s with
  | nil => rfl
  | cons now later ih =>
    rw [eventsFrom, runFrom, List.filterMap_append, filterMap_reading?_begun]
    rcases s.feed p limit phase now with ⟨e | phase', s'⟩
    · rfl
    · exact congrArg (now :: ·) (ih phase' s')

theorem readings_events (s : Session) (readings : List τ) :
    (s.events p limit readings).filterMap Event.reading? ++ (s.run p limit readings).2.2 =
      readings := readings_eventsFrom p limit .opening s readings

variable {p limit} {phase : Phase τ} {s s' : Session} {evs : List (Event τ)} {standing : Standing τ}

theorem Ran.after_eq (h : Ran p limit phase s evs standing s') : s.after evs = s' := by
  induction h with
  | still => rfl
  | failed hplan => rw [after_begun, hplan]
  | finished hplan => exact after_of_perform_ok hplan
  | more hplan _ _ ih => rw [after_append, after_of_perform_ok hplan, ih]

/-- What holds of no events, and of what a reading brings if it holds of all that follows, holds of
the events of a run. -/
theorem Ran.of_begun {motive : Phase τ → List (Event τ) → Prop}
    (h : Ran p limit phase s evs standing s') (hnil : ∀ phase, motive phase [])
    (hbegun : ∀ (phase : Phase τ) (s : Session) (now : τ) (rest : List (Event τ)),
      motive (phase.next p now) rest → motive phase (s.begun (phase.plan p now) ++ rest)) :
    motive phase evs := by
  induction h with
  | still phase => exact hnil phase
  | @failed phase s _ now =>
    have hlast := hbegun phase s now [] (hnil _)
    rwa [List.append_nil] at hlast
  | @finished phase s _ now _ hplan =>
    have hlast := hbegun phase s now [] (hnil _)
    rwa [List.append_nil, begun_of_perform_ok hplan] at hlast
  | @more phase s _ _ now rest _ hplan _ _ ih =>
    rw [← begun_of_perform_ok hplan]
    exact hbegun phase s now rest ih

/-- A run ends at the limit of instructions or with its last event. -/
theorem Ran.ended {e : Ending} (h : Ran p limit phase s evs (.error e) s') :
    e = .finished ∨ ∃ pre ev, evs = pre ++ [ev] ∧ (s.after pre).act ev = (.error e, s') := by
  generalize hstanding : Except.error e = standing at h
  induction h with
  | still => cases hstanding
  | failed hplan =>
    cases hstanding
    obtain ⟨pre, ev, -, -, hbegun, -, hact⟩ := exists_of_perform_error hplan
    exact .inr ⟨pre, ev, hbegun, hact⟩
  | finished =>
    cases hstanding
    exact .inl rfl
  | more hplan _ _ ih =>
    refine (ih hstanding).imp_right ?_
    rintro ⟨pre, ev, rfl, hact⟩
    refine ⟨_ ++ pre, ev, (List.append_assoc ..).symm, ?_⟩
    rw [after_append, after_of_perform_ok hplan, hact]

/-- An event that fails is the last of the run, which ends as it fails. -/
theorem Ran.eq_nil_of_act_error (h : Ran p limit phase s evs standing s')
    {pre post : List (Event τ)} {ev : Event τ} {e : Ending} (hevs : evs = pre ++ ev :: post)
    (hact : ((s.after pre).act ev).1 = .error e) : post = [] ∧ standing = .error e := by
  induction h generalizing pre with
  | still => exact absurd hevs.symm (List.append_ne_nil_of_right_ne_nil _ (List.cons_ne_nil _ _))
  | failed hplan =>
    obtain ⟨rfl, he⟩ := Session.eq_nil_of_act_error hevs hact
    rw [hplan] at he
    cases he
    exact ⟨rfl, rfl⟩
  | finished hplan =>
    rw [← begun_of_perform_ok hplan] at hevs
    obtain ⟨-, he⟩ := Session.eq_nil_of_act_error hevs hact
    rw [hplan] at he
    cases he
  | @more _ s t _ _ evs _ hplan _ _ ih =>
    obtain ⟨rest, rfl, hrest⟩ | ⟨mid, hmid, hpost⟩ := List.append_eq_append_iff.1 hevs
    · rw [after_append, after_of_perform_ok hplan] at hact
      exact ih hrest hact
    · cases mid with
      | nil =>
        rw [List.append_nil] at hmid
        rw [← hmid, after_of_perform_ok hplan] at hact
        have hrest : evs = [] ++ ev :: post := hpost.symm
        exact ih hrest hact
      | cons ev' mid =>
        obtain ⟨rfl, -⟩ := List.cons.inj hpost
        rw [← begun_of_perform_ok hplan] at hmid
        obtain ⟨-, he⟩ := Session.eq_nil_of_act_error hmid hact
        rw [hplan] at he
        cases he

/-- The events of a run lead where the run leads. -/
theorem after_events (s : Session) (readings : List τ) :
    s.after (s.events p limit readings) = (s.run p limit readings).2.1 :=
  (ran_events p limit s readings).after_eq

end Session

end Chip8
