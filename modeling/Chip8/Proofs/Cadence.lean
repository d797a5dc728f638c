import Chip8.Proofs.CatchUp
import Chip8.Proofs.Reports

/-!
# Cadences of a run

A run is made up of turns. Reports and polls each keep a cadence of their own: a turn makes one iff
it does not begin before the time at which that is due, an interval behind the last turn that made
one. At a limited speed a turn begins when the wait of the one before it is over, so that no two
instructions begin within one wait.

* `Turn.ofEvents`: the turns of a run.
* `Turn.Keeps`, `Paced`: what is due in a turn is done in it, turn after turn.
* `Turn.nextDue`, `Paced.count_eq`: when a thing is next due, from the turns in which it was done.
* `Session.Ran.paced`, `Session.Ran.spaced`: the turns of a run keep the pace.
* `Session.run_cadence`: both cadences of a run, and the instructions that begin within a time.
-/

namespace Chip8

/-! ## Turns -/

/-- A turn of a run. -/
structure Turn (τ : Type) where
  /-- The time at which it begins. -/
  time : τ
  /-- What happens in it behind that. -/
  events : List (Event τ)

namespace Event

variable {τ : Type}

/-- The time at which a turn begins, if the event is the beginning of a turn. -/
def turn? : Event τ → Option τ
  | .turn now => some now
  | _ => none

/-- The event is part of the wait behind an instruction. -/
def Waits : Event τ → Prop
  | .wait _ | .count => True
  | _ => False

theorem turn?_eq_none {ev : Event τ} (h : ev.reading? = none) : ev.turn? = none := by
  cases ev <;> first | rfl | cases h

theorem reading?_of_turn? {ev : Event τ} {now : τ} (h : ev.turn? = some now) :
    ev.reading? = some now := by
  cases ev with
  | turn => exact h
  | _ => cases h

/-- The time at which a turn begins is read. -/
theorem mem_reading?_of_mem_turn? {evs : List (Event τ)} {now : τ}
    (h : now ∈ evs.filterMap turn?) : now ∈ evs.filterMap reading? := by
  obtain ⟨ev, hev, hturn⟩ := List.mem_filterMap.1 h
  exact List.mem_filterMap.2 ⟨ev, hev, reading?_of_turn? hturn⟩

end Event

namespace Turn

variable {τ : Type}

/-- The events before the first turn. -/
def leading (evs : List (Event τ)) : List (Event τ) := evs.takeWhile (·.turn?.isNone)

/-- The turns of a run, each with the events up to the next one. -/
def ofEvents : List (Event τ) → List (Turn τ)
  | [] => []
  | .turn now :: evs => ⟨now, leading evs⟩ :: ofEvents evs
  | _ :: evs => ofEvents evs

/-- The events of a turn with its beginning. -/
def allEvents (t : Turn τ) : List (Event τ) := .turn t.time :: t.events

variable {evs evs' : List (Event τ)}

theorem leading_append (h : ∀ ev ∈ evs, ev.turn? = none) :
    leading (evs ++ evs') = evs ++ leading evs' :=
  List.takeWhile_append_of_pos fun ev hev => by rw [h ev hev]; rfl

theorem ofEvents_append (h : ∀ ev ∈ evs, ev.turn? = none) :
    ofEvents (evs ++ evs') = ofEvents evs' := by
  induction evs with
  | nil => rfl
  | cons ev evs ih =>
    obtain ⟨hev, hevs⟩ := List.forall_mem_cons.1 h
    cases ev with
    | turn now => cases hev
    | _ => exact ih hevs

theorem map_time_ofEvents (evs : List (Event τ)) :
    (ofEvents evs).map time = evs.filterMap Event.turn? := by
  induction evs with
  | nil => rfl
  | cons ev evs ih =>
    cases ev with
    | turn now => exact congrArg (now :: ·) ih
    | _ => exact ih

/-- No event is lost. -/
theorem leading_append_flatMap (evs : List (Event τ)) :
    leading evs ++ (ofEvents evs).flatMap allEvents = evs := by
  induction evs with
  | nil => rfl
  | cons ev evs ih =>
    cases ev with
    | turn now => exact congrArg (.turn now :: ·) ih
    | _ => exact congrArg (_ :: ·) ih

end Turn

section Due

variable {τ : Type} [DecidableEq τ]

/-! ## What is due -/

/-- When a thing is next due behind some turns: at the start, or an interval behind the last of them
in which it was done. -/
def Turn.nextDue [Add τ] (start interval : τ) (ev : Event τ) (past : List (Turn τ)) : τ :=
  match (past.filter fun t => ev ∈ t.events).getLast? with
  | none => start
  | some t => t.time + interval

theorem Turn.nextDue_cons [Add τ] (start interval : τ) (ev : Event τ) (t : Turn τ)
    (past : List (Turn τ)) :
    nextDue start interval ev (t :: past) =
      nextDue (if ev ∈ t.events then t.time + interval else start) interval ev past := by
  unfold nextDue
  by_cases hev : ev ∈ t.events
  · rw [List.filter_cons_of_pos (by simpa using hev), List.getLast?_cons, if_pos hev]
    cases (past.filter fun t => decide (ev ∈ t.events)).getLast? <;> rfl
  · rw [List.filter_cons_of_neg (by simpa using hev), if_neg hev]

variable [LE τ] [DecidableLE τ]

/-- A report and a poll are made in a turn iff they are due as it begins, and made once. One
instruction begins in it at most. -/
structure Turn.Keeps (due : Schedule τ) (t : Turn τ) : Prop where
  /-- A report is made iff it is due. -/
  reports : t.events.count .report = if due.report ≤ t.time then 1 else 0
  /-- A poll is made iff it is due. -/
  polls : t.events.count .poll = if due.display ≤ t.time then 1 else 0
  /-- There is one instruction at most. -/
  cycles : t.events.count .cycle ≤ 1

/-- A wait behind a turn makes no difference. -/
theorem Turn.Keeps.append {due : Schedule τ} {now : τ} {body waits : List (Event τ)}
    (h : Turn.Keeps due ⟨now, body⟩) (hwaits : ∀ ev ∈ waits, ev.Waits) :
    Turn.Keeps due ⟨now, body ++ waits⟩ := by
  have hzero : ∀ ev : Event τ, ¬ ev.Waits → (body ++ waits).count ev = body.count ev := by
    intro ev hev
    rw [List.count_append, List.count_eq_zero.2 fun hmem => hev (hwaits ev hmem), Nat.add_zero]
  exact ⟨(hzero _ id).trans h.reports, (hzero _ id).trans h.polls, (hzero _ id).trans_le h.cycles⟩

variable [Add τ]

/-- Turns that each do what is due behind those before. -/
inductive Paced (p : Pace τ) : Schedule τ → List (Turn τ) → Prop where
  /-- There is no turn. -/
  | nil (due : Schedule τ) : Paced p due []
  /-- A turn is followed by others. -/
  | cons {due : Schedule τ} {t : Turn τ} {later : List (Turn τ)} (first : t.Keeps due)
    (rest : Paced p (due.advance p t.time) later) : Paced p due (t :: later)

/-- A thing that is done once when it is due, and is then due an interval later, is done in a turn
iff it is due by then, an interval behind the last turn in which it was done. -/
theorem Paced.count_eq {p : Pace τ} {ev : Event τ} {interval : τ} {get : Schedule τ → τ}
    (hkeeps : ∀ {due : Schedule τ} {t : Turn τ}, t.Keeps due →
      t.events.count ev = if get due ≤ t.time then 1 else 0)
    (hadvance : ∀ (due : Schedule τ) (now : τ),
      get (due.advance p now) = if get due ≤ now then now + interval else get due)
    {due : Schedule τ} {past later : List (Turn τ)} {t : Turn τ}
    (h : Paced p due (past ++ t :: later)) :
    t.events.count ev = if Turn.nextDue (get due) interval ev past ≤ t.time then 1 else 0 := by
  induction past generalizing due with
  | nil =>
    cases h with
    | cons first => exact hkeeps first
  | cons u past ih =>
    cases h with
    | cons first rest =>
      have hdone : ev ∈ u.events ↔ get due ≤ u.time := by
        rw [← List.count_pos_iff, hkeeps first]
        split <;> simpa
      rw [ih rest, hadvance, Turn.nextDue_cons]
      simp only [hdone]

theorem Paced.cycles_le {p : Pace τ} {due : Schedule τ} {turns : List (Turn τ)}
    (h : Paced p due turns) : ∀ t ∈ turns, t.events.count .cycle ≤ 1 := by
  induction h with
  | nil => nofun
  | cons first _ ih => exact List.forall_mem_cons.2 ⟨first.cycles, ih⟩

end Due

/-! ## The turns of a run -/

section Run

variable {τ : Type} [Add τ] [LE τ] [DecidableLE τ]

/-- A reading that begins no turn brings no beginning of a turn. -/
theorem Phase.turn?_eq_none {p : Pace τ} {now : τ} {phase : Phase τ} {ev : Event τ}
    (hphase : ∀ due, phase ≠ .turn due) (hev : ev ∈ phase.plan p now) : ev.turn? = none := by
  cases phase with
  | opening =>
    rw [List.mem_singleton.1 hev]
    rfl
  | turn due => exact absurd rfl (hphase due)
  | waiting due wake =>
    obtain rfl | hev := List.mem_cons.1 hev
    · rfl
    · rw [eq_count_of_mem hev]
      rfl

/-- Behind a schedule there is always a next one. -/
theorem Phase.exists_due?_next (phase : Phase τ) {due : Schedule τ} (hdue : phase.due? = some due)
    (p : Pace τ) (now : τ) : ∃ due', (phase.next p now).due? = some due' := by
  cases phase with
  | opening => cases hdue
  | turn due =>
    rw [next]
    cases p.core <;> exact ⟨_, rfl⟩
  | waiting due wake =>
    rw [next]
    split <;> exact ⟨_, rfl⟩

theorem Phase.waits_of_mem {p : Pace τ} {now wake : τ} {due : Schedule τ} {ev : Event τ}
    (hev : ev ∈ (Phase.waiting due wake).plan p now) : ev.Waits := by
  obtain rfl | hev := List.mem_cons.1 hev
  · exact trivial
  · rw [eq_count_of_mem hev]
    exact trivial

namespace Session

/-- A turn catches up on what is due before anything in it can fail. -/
theorem begun_catchUp (s : Session) (p : Pace τ) (due : Schedule τ) (now : τ)
    (evs : List (Event τ)) :
    ∃ s' : Session, s.begun (p.catchUp due now ++ evs) = p.catchUp due now ++ s'.begun evs := by
  refine ⟨s.after (p.catchUp due now), begun_append_of_ok (perform_of_not_canFail ?_ s)⟩
  intro ev hev
  obtain rfl | rfl := Pace.eq_of_mem_catchUp hev <;> exact id

variable [DecidableEq τ]

theorem count_report_catchUp (p : Pace τ) (due : Schedule τ) (now : τ) :
    (p.catchUp due now).count .report = if due.report ≤ now then 1 else 0 := by
  rw [Pace.catchUp, List.count_append, List.count_replicate]
  split <;> rfl

theorem count_catchUp_eq_zero {ev : Event τ} (p : Pace τ) (due : Schedule τ) (now : τ)
    (hev : ¬ (ev = .report ∨ ev = .tick)) : (p.catchUp due now).count ev = 0 :=
  List.count_eq_zero.2 fun hmem => hev (Pace.eq_of_mem_catchUp hmem)

/-- What the reading at the beginning of a turn brings, whether or not all of it goes through. -/
theorem begun_turn (s : Session) (p : Pace τ) (due : Schedule τ) (now : τ) :
    ∃ body, s.begun ((Phase.turn due).plan p now) = .turn now :: body ∧
      (∀ ev ∈ body, ev.turn? = none) ∧ Turn.Keeps due ⟨now, body⟩ := by
  generalize hlast : (if p.core.isNone then [.count] else [] : List (Event τ)) = last
  have hcount : ∀ ev : Event τ, ev ≠ .count → last.count ev = 0 := by
    intro ev hev
    rw [← hlast, List.count_eq_zero]
    exact fun hmem => hev (Phase.eq_count_of_mem hmem)
  have hplan : (Phase.turn due).plan p now = .turn now :: (p.catchUp due now ++
      ((if due.display ≤ now then [.poll, .sync, .refresh] else []) ++ .cycle :: last)) := by
    simp only [Phase.plan, hlast, Pace.turnPlan, List.append_assoc, List.singleton_append]
  obtain ⟨s', hcaught⟩ := s.begun_catchUp p due now
    ((if due.display ≤ now then [.poll, .sync, .refresh] else []) ++ .cycle :: last)
  have hbegun : s.begun ((Phase.turn due).plan p now) = .turn now :: (p.catchUp due now ++
      s'.begun ((if due.display ≤ now then [.poll, .sync, .refresh] else []) ++
        .cycle :: last)) := by
    rw [← hcaught, hplan]
    rfl
  refine ⟨_, hbegun, fun ev hev => ?_, ?_⟩
  · obtain ⟨first, rest, hcons, -, -, hrest⟩ := (Phase.turn due).plan_eq_cons p now
    have hbegins := s.isPrefix_begun ((Phase.turn due).plan p now)
    rw [hbegun, hcons, List.cons_prefix_cons] at hbegins
    exact Event.turn?_eq_none (hrest ev (hbegins.2.subset hev))
  have hreport := count_report_catchUp p due now
  have hpoll : (p.catchUp due now).count .poll = 0 := count_catchUp_eq_zero p due now (by simp)
  have hcycle : (p.catchUp due now).count .cycle = 0 := count_catchUp_eq_zero p due now (by simp)
  -- What follows begins with a poll if one is due, and else with the instruction.
  by_cases hdisplay : due.display ≤ now
  · obtain ⟨done, hdone, hbegins⟩ :=
      s'.exists_begun_cons .poll (.sync :: .refresh :: .cycle :: last)
    have hle : ∀ ev : Event τ, done.count ev ≤ (.sync :: .refresh :: .cycle :: last).count ev :=
      fun ev => hbegins.sublist.count_le ev
    have hreports := hle .report
    have hpolls := hle .poll
    have hcycles := hle .cycle
    simp [hcount] at hreports hpolls hcycles
    simp only [if_pos hdisplay, List.cons_append, List.nil_append, hdone]
    constructor <;>
      simp [List.count_append, hreport, hpoll, hcycle, hreports, hpolls, hcycles, hdisplay]
  · obtain ⟨done, hdone, hbegins⟩ := s'.exists_begun_cons .cycle last
    have hzero : ∀ ev : Event τ, ev ≠ .count → done.count ev = 0 := fun ev hev =>
      Nat.le_zero.1 ((hbegins.sublist.count_le ev).trans_eq (hcount ev hev))
    simp only [if_neg hdisplay, List.nil_append, hdone]
    constructor <;> simp [List.count_append, hreport, hpoll, hcycle, hzero, hdisplay]

end Session

/-! ## Runs keep the pace -/

namespace Session

variable {p : Pace τ} {limit : Option Int} {phase : Phase τ} {s s' : Session}
  {evs : List (Event τ)} {standing : Standing τ}

/-- What a reading brings keeps the pace, if what follows it does. -/
theorem paced_begun [DecidableEq τ] {due : Schedule τ} (hdue : phase.due? = some due) (s : Session)
    (now : τ) (rest : List (Event τ))
    (hpaced : ∀ due', (phase.next p now).due? = some due' → Paced p due' (Turn.ofEvents rest))
    (hwaits : ∀ ev ∈ Turn.leading rest, ev.Waits) :
    Paced p due (Turn.ofEvents (s.begun (phase.plan p now) ++ rest)) ∧
      ∀ ev ∈ Turn.leading (s.begun (phase.plan p now) ++ rest), ev.Waits := by
  cases phase with
  | opening => cases hdue
  | turn due =>
    cases hdue
    obtain ⟨body, hbegun, hbody, hkeeps⟩ := s.begun_turn p due now
    rw [hbegun]
    refine ⟨?_, nofun⟩
    have hnext : ((Phase.turn due).next p now).due? = some (due.advance p now) := by
      rw [Phase.next]
      cases p.core <;> rfl
    simp only [List.cons_append, Turn.ofEvents, Turn.leading_append hbody,
      Turn.ofEvents_append hbody]
    exact .cons (hkeeps.append hwaits) (hpaced _ hnext)
  | waiting due wake =>
    cases hdue
    have hsub : ∀ ev ∈ s.begun ((Phase.waiting due wake).plan p now),
        ev ∈ (Phase.waiting due wake).plan p now := (s.isPrefix_begun _).subset
    have hturn : ∀ ev ∈ s.begun ((Phase.waiting due wake).plan p now), ev.turn? = none :=
      fun ev hev => Phase.turn?_eq_none (by rintro _ ⟨⟩) (hsub ev hev)
    have hnext : ((Phase.waiting due wake).next p now).due? = some due := by
      rw [Phase.next]
      split <;> rfl
    rw [Turn.ofEvents_append hturn, Turn.leading_append hturn]
    refine ⟨hpaced _ hnext, fun ev hev => ?_⟩
    obtain hev | hev := List.mem_append.1 hev
    · exact Phase.waits_of_mem (hsub ev hev)
    · exact hwaits ev hev

/-- The turns of a run do what is due, from the schedule that the run goes on from. -/
theorem Ran.paced [DecidableEq τ] (h : Ran p limit phase s evs standing s') {due : Schedule τ}
    (hdue : phase.due? = some due) :
    Paced p due (Turn.ofEvents evs) ∧ ∀ ev ∈ Turn.leading evs, ev.Waits := by
  refine h.of_begun (motive := fun phase evs => ∀ due, phase.due? = some due →
    Paced p due (Turn.ofEvents evs) ∧ ∀ ev ∈ Turn.leading evs, ev.Waits) ?_ ?_ due hdue
  · exact fun _ due _ => ⟨.nil due, nofun⟩
  · intro phase s now rest ih due hdue
    obtain ⟨due', hdue'⟩ := phase.exists_due?_next hdue p now
    exact paced_begun hdue s now rest (fun due hnext => (ih due hnext).1) (ih due' hdue').2

/-- The events of a run behind its opening begin with a turn, if there are any. -/
theorem leading_eventsFrom [DecidableEq τ] (p : Pace τ) (limit : Option Int) (due : Schedule τ)
    (s : Session) (readings : List τ) :
    Turn.leading (s.eventsFrom p limit (.turn due) readings) = [] := by
  cases readings with
  | nil => rfl
  | cons now later =>
    obtain ⟨body, hbegun, -⟩ := s.begun_turn p due now
    rw [eventsFrom, hbegun]
    rfl

/-- A run is its opening and turns that do what is due. -/
theorem paced_events [DecidableEq τ] (p : Pace τ) (limit : Option Int) (s : Session) (start : τ)
    (later : List τ) :
    Paced p (.start start) (Turn.ofEvents (s.events p limit (start :: later))) ∧
      s.events p limit (start :: later) = .opening start ::
        (Turn.ofEvents (s.events p limit (start :: later))).flatMap Turn.allEvents := by
  rw [events_cons]
  by_cases hreached : s.reached limit = true
  · rw [if_pos hreached]
    exact ⟨.nil _, rfl⟩
  · rw [if_neg hreached]
    have hran := ran_eventsFrom p limit (.turn (.start start)) s later
    have hturns := Turn.leading_append_flatMap
      (s.eventsFrom p limit (.turn (.start start)) later)
    rw [leading_eventsFrom, List.nil_append] at hturns
    exact ⟨(hran.paced rfl).1, congrArg (.opening start :: ·) hturns.symm⟩

/-- What a reading brings keeps turns a wait apart, if what follows it does. A turn to come is not
begun before the time for which the run waits. -/
theorem spaced_begun [DecidableEq τ] [Std.IsPreorder τ] {wait : τ} (hcore : p.core = some wait)
    (phase : Phase τ) (s : Session) (now : τ) (rest : List (Event τ))
    (hlater : ∀ t ∈ rest.filterMap Event.reading?, now ≤ t)
    (hspaced : (rest.filterMap Event.turn?).Pairwise fun t u => t + wait ≤ u)
    (hwake : ∀ due wake, phase.next p now = .waiting due wake →
      ∀ t ∈ rest.filterMap Event.turn?, wake ≤ t) :
    ((s.begun (phase.plan p now) ++ rest).filterMap Event.turn?).Pairwise
        (fun t u => t + wait ≤ u) ∧
      ∀ due wake, phase = .waiting due wake →
        ∀ t ∈ (s.begun (phase.plan p now) ++ rest).filterMap Event.turn?, wake ≤ t := by
  have hnone (hphase : ∀ due, phase ≠ .turn due) :
      (s.begun (phase.plan p now)).filterMap Event.turn? = [] :=
    List.filterMap_eq_nil_iff.2 fun ev hev =>
      Phase.turn?_eq_none hphase ((s.isPrefix_begun _).subset hev)
  rw [List.filterMap_append]
  cases phase with
  | opening =>
    rw [hnone (by rintro _ ⟨⟩), List.nil_append]
    exact ⟨hspaced, by rintro _ _ ⟨⟩⟩
  | turn due =>
    obtain ⟨body, hbegun, hbody, -⟩ := s.begun_turn p due now
    have hnext : (Phase.turn due).next p now = .waiting (due.advance p now) (now + wait) := by
      rw [Phase.next, hcore]
    have hturn : (.turn now :: body : List (Event τ)).filterMap Event.turn? = [now] :=
      congrArg (now :: ·) (List.filterMap_eq_nil_iff.2 hbody)
    rw [hbegun, hturn]
    exact ⟨List.pairwise_cons.2 ⟨hwake _ _ hnext, hspaced⟩, by rintro _ _ ⟨⟩⟩
  | waiting due wake =>
    rw [hnone (by rintro _ ⟨⟩), List.nil_append]
    refine ⟨hspaced, ?_⟩
    rintro _ _ ⟨⟩ t ht
    by_cases hover : wake ≤ now
    · exact Std.le_trans hover (hlater t (Event.mem_reading?_of_mem_turn? ht))
    · exact hwake due wake (by rw [Phase.next, if_neg hover]) t ht

/-- On a clock that never goes back, turns are begun a wait apart. -/
theorem Ran.spaced [DecidableEq τ] [Std.IsPreorder τ] (h : Ran p limit phase s evs standing s')
    {wait : τ} (hcore : p.core = some wait)
    (hclock : (evs.filterMap Event.reading?).Pairwise (· ≤ ·)) :
    (evs.filterMap Event.turn?).Pairwise (fun t u => t + wait ≤ u) ∧
      ∀ due wake, phase = .waiting due wake → ∀ t ∈ evs.filterMap Event.turn?, wake ≤ t := by
  refine h.of_begun (motive := fun phase evs => (evs.filterMap Event.reading?).Pairwise (· ≤ ·) →
    (evs.filterMap Event.turn?).Pairwise (fun t u => t + wait ≤ u) ∧
      ∀ due wake, phase = .waiting due wake → ∀ t ∈ evs.filterMap Event.turn?, wake ≤ t)
    ?_ ?_ hclock
  · exact fun _ _ => ⟨.nil, nofun⟩
  · intro phase s now rest ih hclock
    rw [List.filterMap_append, filterMap_reading?_begun, List.singleton_append,
      List.pairwise_cons] at hclock
    obtain ⟨hspaced, hwake⟩ := ih hclock.2
    exact spaced_begun hcore phase s now rest hclock.1 hspaced hwake

end Session

end Run

/-! ## Instructions within a time -/

namespace Turn

/-- The instructions of the turns that begin within a time. -/
def cyclesWithin (turns : List (Turn Rat)) (start stop : Rat) : Nat :=
  ((turns.filter fun t => start ≤ t.time ∧ t.time < stop).map (·.events.count .cycle)).sum

theorem cyclesWithin_cons (t : Turn Rat) (turns : List (Turn Rat)) (start stop : Rat) :
    cyclesWithin (t :: turns) start stop =
      (if start ≤ t.time ∧ t.time < stop then t.events.count .cycle else 0) +
        cyclesWithin turns start stop := by
  by_cases hin : start ≤ t.time ∧ t.time < stop
  · rw [cyclesWithin, List.filter_cons_of_pos (by simpa using hin), if_pos hin]
    rfl
  · rw [cyclesWithin, List.filter_cons_of_neg (by simpa using hin), if_neg hin, Nat.zero_add]
    rfl

/-- Of the instructions of turns a wait apart no more than `n` fall within `n` waits. -/
theorem cyclesWithin_le {wait : Rat} {turns : List (Turn Rat)}
    (hspaced : turns.Pairwise fun t u => t.time + wait ≤ u.time)
    (hcycles : ∀ t ∈ turns, t.events.count .cycle ≤ 1) (start : Rat) (n : Nat) :
    cyclesWithin turns start (start + n * wait) ≤ n := by
  induction turns generalizing start n with
  | nil => exact Nat.zero_le n
  | cons t turns ih =>
    obtain ⟨hfirst, hspaced⟩ := List.pairwise_cons.1 hspaced
    obtain ⟨hcycle, hcycles⟩ := List.forall_mem_cons.1 hcycles
    rw [cyclesWithin_cons]
    by_cases hin : start ≤ t.time ∧ t.time < start + n * wait
    · rw [if_pos hin]
      cases n with
      | zero => grind
      | succ n =>
        have hwait : 0 < wait := by
          have hwaits : 0 < ((n + 1 : Nat) : Rat) * wait := by grind
          exact (Rat.mul_pos_iff_of_pos_left (Rat.natCast_pos.2 n.succ_pos)).1 hwaits
        -- The turns behind the first one begin a wait later at least.
        have hrest : cyclesWithin turns start (start + (n + 1 : Nat) * wait) =
            cyclesWithin turns (start + wait) (start + wait + n * wait) := by
          unfold cyclesWithin
          congr 2
          refine List.filter_congr fun u hu => ?_
          have := hfirst u hu
          grind
        rw [hrest, Nat.add_comm]
        exact Nat.add_le_add (ih hspaced hcycles _ n) hcycle
    · rw [if_neg hin, Nat.zero_add]
      exact ih hspaced hcycles start n

end Turn

/-- What a run does is to open and to take turns. A turn polls iff it begins no earlier than a
sixtieth of a second behind the last turn that polled, or than the opening if none has. It makes a
report iff it begins no earlier than a second behind the last turn that made one, or than the
opening. Each poll and each report is one that the session has made then. On a clock that never goes
back, turns at a limited speed begin a wait apart, so that of their instructions no more than `n`
fall within `n` waits. -/
theorem Session.run_cadence {core : Option Rat} {limit : Option Int} {s : Session} (start : Rat)
    (later : List Rat) :
    let evs := s.events (.exact core) limit (start :: later)
    let run := s.run (.exact core) limit (start :: later)
    let turns := Turn.ofEvents evs
    s.after evs = run.2.1 ∧ evs.filterMap Event.reading? ++ run.2.2 = start :: later ∧
      evs = .opening start :: turns.flatMap Turn.allEvents ∧
      (∀ pre, pre <+: evs → (s.after pre).polls = s.polls + pre.count .poll ∧
        (s.after pre).reports.size = s.reports.size + pre.count .report) ∧
      (∀ past t rest, turns = past ++ t :: rest →
        t.events.count .poll = (if Turn.nextDue start (1 / 60) .poll past ≤ t.time then 1 else 0) ∧
        t.events.count .report = (if Turn.nextDue start 1 .report past ≤ t.time then 1 else 0) ∧
        t.events.count .cycle ≤ 1) ∧
      ∀ wait, core = some wait → (start :: later).Pairwise (· ≤ ·) →
        turns.Pairwise (fun t u => t.time + wait ≤ u.time) ∧
          ∀ (first : Rat) (n : Nat), Turn.cyclesWithin turns first (first + n * wait) ≤ n := by
  intro evs run turns
  obtain ⟨hpaced, hturns⟩ : Paced (.exact core) (.start start) turns ∧ _ :=
    s.paced_events (.exact core) limit start later
  have hran := s.ran_events (.exact core) limit (start :: later)
  have hreadings := s.readings_events (.exact core) limit (start :: later)
  refine ⟨after_events s _, hreadings, hturns, fun pre _ => s.made_after pre, ?_, ?_⟩
  · intro past t rest hcut
    have hmem : t ∈ turns := hcut ▸ List.mem_append_right past List.mem_cons_self
    have hcycle := hpaced.cycles_le t hmem
    rw [hcut] at hpaced
    exact ⟨hpaced.count_eq Turn.Keeps.polls fun _ _ => rfl,
      hpaced.count_eq Turn.Keeps.reports fun _ _ => rfl, hcycle⟩
  · intro wait hcore hclock
    rw [← hreadings] at hclock
    have hspaced : (turns.map Turn.time).Pairwise fun t u => t + wait ≤ u := by
      rw [Turn.map_time_ofEvents]
      exact (hran.spaced hcore (List.pairwise_append.1 hclock).1).1
    rw [List.pairwise_map] at hspaced
    exact ⟨hspaced, Turn.cyclesWithin_le hspaced hpaced.cycles_le⟩

end Chip8
