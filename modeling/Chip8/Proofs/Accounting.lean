import Chip8.Proofs.Plan
import Chip8.Proofs.Reports
import Mathlib.Algebra.GroupWithZero.Nat

/-!
# The accounts of a session

A session counts instructions and frames over all of its runs and reports them as it goes. What is
reported and what is counted since add up to what was done, at whichever point a run ends: at its
limit, when the user quits, with a fault, or because its clock gives out. Only an instruction whose
wait is cut short is completed and not counted.

* `Session.Balanced`: the reports and the counts since add up.
* `Session.completed`: how many instructions are completed in a run.
* `Phase.counts_plan`: how many instructions a reading completes and counts.
* `Session.Accounts`: what one run does to the counts and to the log, for each of its ends.
* `Session.carryAll_accounts`: the accounts hold over any runs, whatever happens in between.
-/

namespace Chip8

variable {τ : Type}

/-! ## Counts and reports -/

namespace Session

/-- The reports and what is counted since add up to the instructions counted and to the frames
painted beyond `painted`. -/
structure Balanced (s : Session) (painted : Nat) : Prop where
  /-- The instructions add up. -/
  ops : s.tally.total = (s.reports.toList.map (·.ops)).sum + s.tally.ops
  /-- The frames add up. -/
  frames : s.emulator.host.presenter.framesDrawn =
    painted + (s.reports.toList.map (·.frames)).sum + s.tally.frames

variable {s s' : Session} {painted : Nat} {ev : Event τ} {evs evs' : List (Event τ)}

theorem Balanced.report (h : s.Balanced painted) : s.report.Balanced painted where
  ops := by
    simp only [Session.report, Array.toList_push, List.map_append, List.sum_append, List.map_cons,
      List.map_nil, List.sum_cons, List.sum_nil]
    exact h.ops
  frames := by
    simp only [Session.report, Array.toList_push, List.map_append, List.sum_append, List.map_cons,
      List.map_nil, List.sum_cons, List.sum_nil]
    have hframes := h.frames
    simp only [Emulator.setPresenter, Presenter.setTitle]
    omega

theorem Balanced.countOp (h : s.Balanced painted) : s.countOp.Balanced painted where
  ops := congrArg (· + 1) h.ops
  frames := h.frames

/-- Where nothing is painted, nothing need be counted. -/
theorem Balanced.congr (h : s.Balanced painted) (htally : s'.tally = s.tally)
    (hreports : s'.reports = s.reports)
    (hframes : s'.emulator.host.presenter.framesDrawn = s.emulator.host.presenter.framesDrawn) :
    s'.Balanced painted where
  ops := by
    rw [htally, hreports]
    exact h.ops
  frames := by
    rw [htally, hreports, hframes]
    exact h.frames

theorem Balanced.cycle (h : s.Balanced painted) : s.cycle.2.Balanced painted := by
  have hcycle := s.emulator.quiet_cycle.frames
  unfold Session.cycle
  rcases hc : s.emulator.cycle with ⟨f | ⟨⟩, e⟩
  · rw [hc] at hcycle
    have hlogged : (logFault e f).host = e.host := by cases f <;> rfl
    exact h.congr rfl rfl ((congrArg (·.presenter.framesDrawn) hlogged).trans hcycle)
  · rw [hc] at hcycle
    exact h.congr rfl rfl hcycle

theorem Balanced.refresh (h : s.Balanced painted) : s.refresh.2.Balanced painted := by
  have hframes : s.emulator.refresh.2.host.presenter.framesDrawn =
      s.emulator.host.presenter.framesDrawn + Presenter.framesOf s.emulator.refresh.1 :=
    Presenter.framesDrawn_refresh _ _
  unfold Session.refresh
  rcases hr : s.emulator.refresh with ⟨_ | _ | _, e⟩ <;> rw [hr] at hframes
  · exact h.congr rfl rfl hframes
  · exact h.congr rfl rfl hframes
  · refine ⟨h.ops, hframes.trans ?_⟩
    rw [h.frames]
    rfl

theorem Balanced.act (h : s.Balanced painted) (ev : Event τ) : (s.act ev).2.Balanced painted := by
  cases ev with
  | opening | turn | wait => exact h
  | report => exact h.report
  | tick | poll => exact h.congr rfl rfl rfl
  | sync =>
    refine h.congr ?_ ?_ s.quiet_syncPause.frames
    · simp only [Session.act, syncPause]
      split <;> rfl
    · simp only [Session.act, syncPause]
      split <;> rfl
  | refresh => exact h.refresh
  | cycle => exact h.cycle
  | count => exact h.countOp

theorem Balanced.after (h : s.Balanced painted) (evs : List (Event τ)) :
    (s.after evs).Balanced painted := by
  induction evs generalizing s with
  | nil => exact h
  | cons ev evs ih => exact ih (h.act ev)

/-! ## Instructions completed and instructions counted -/

/-- How many instructions are completed in events. -/
def completed (s : Session) : List (Event τ) → Nat
  | [] => 0
  | .cycle :: evs => (if s.cycle.1.isOk then 1 else 0) + s.cycle.2.completed evs
  | ev :: evs => (s.act ev).2.completed evs

end Session

namespace Event

/-- The event carries out an instruction. -/
def isCycle : Event τ → Bool
  | .cycle => true
  | _ => false

/-- The event counts an instruction. -/
def isCount : Event τ → Bool
  | .count => true
  | _ => false

end Event

namespace Session

variable {s s' : Session} {painted : Nat} {ev : Event τ} {evs evs' : List (Event τ)} {e : Ending}

theorem completed_cons (s : Session) (ev : Event τ) (evs : List (Event τ)) :
    s.completed (ev :: evs) =
      (if ev.isCycle && (s.act ev).1.isOk then 1 else 0) + (s.act ev).2.completed evs := by
  cases ev with
  | cycle => rfl
  | _ => exact (Nat.zero_add _).symm

theorem completed_append (s : Session) (evs evs' : List (Event τ)) :
    s.completed (evs ++ evs') = s.completed evs + (s.after evs).completed evs' := by
  induction evs generalizing s with
  | nil => exact (Nat.zero_add _).symm
  | cons ev evs ih =>
    rw [List.cons_append, completed_cons, completed_cons, ih, after_cons, Nat.add_assoc]

/-- If events go through, each of their instructions is completed. -/
theorem completed_of_perform_ok (h : s.perform evs = (.ok (), s')) :
    s.completed evs = evs.countP Event.isCycle := by
  induction evs generalizing s with
  | nil => rfl
  | cons ev evs ih =>
    rcases hact : s.act ev with ⟨e | ⟨⟩, t⟩
    · rw [perform_cons_error hact] at h
      cases h
    · rw [perform_cons_ok hact] at h
      rw [completed_cons, hact, ih h, List.countP_cons, Nat.add_comm]
      simp only [Except.isOk, Except.toBool, Bool.and_true]

theorem total_act (s : Session) (ev : Event τ) :
    (s.act ev).2.tally.total = s.tally.total + if ev.isCount then 1 else 0 := by
  cases ev with
  | opening | turn | wait | report | tick | poll | count => rfl
  | sync =>
    simp only [act, syncPause]
    split <;> rfl
  | refresh =>
    simp only [act, refresh]
    split <;> rfl
  | cycle =>
    simp only [act, cycle]
    split <;> rfl

theorem total_after (s : Session) (evs : List (Event τ)) :
    (s.after evs).tally.total = s.tally.total + evs.countP Event.isCount := by
  induction evs generalizing s with
  | nil => rfl
  | cons ev evs ih =>
    rw [after_cons, ih, total_act, List.countP_cons, Nat.add_assoc, Nat.add_comm (ite ..)]

end Session

/-! ## Instructions of a reading -/

/-- How many instructions a reading carries out and how many it counts, between two phases. -/
inductive Phase.Counts : Phase τ → Nat → Nat → Phase τ → Prop where
  /-- A run opens. -/
  | opening (due : Schedule τ) : Counts .opening 0 0 (.turn due)
  /-- An instruction counts at once. -/
  | turn (due due' : Schedule τ) : Counts (.turn due) 1 1 (.turn due')
  /-- An instruction has to wait. -/
  | delayed (due due' : Schedule τ) (wake : τ) : Counts (.turn due) 1 0 (.waiting due' wake)
  /-- An instruction has waited long enough. -/
  | woken (due : Schedule τ) (wake : τ) : Counts (.waiting due wake) 0 1 (.turn due)
  /-- An instruction has to wait on. -/
  | asleep (due : Schedule τ) (wake : τ) : Counts (.waiting due wake) 0 0 (.waiting due wake)

/-- The instructions that are completed and not counted where a run stands: one, if its wait is not
over. -/
def Standing.uncounted : Standing τ → Nat
  | .ok (.waiting _ _) => 1
  | _ => 0

theorem Phase.Counts.balance {phase phase' : Phase τ} {cycles counts : Nat}
    (h : phase.Counts cycles counts phase') :
    Standing.uncounted (.ok phase) + cycles = counts + Standing.uncounted (.ok phase') := by
  cases h <;> rfl

variable [Add τ] [LE τ] [DecidableLE τ] {p : Pace τ} {limit : Option Int} {now : τ}
  {due : Schedule τ} {phase : Phase τ}

namespace Phase

/-- A turn carries out its instruction last, and then counts it if no instruction has to wait. -/
theorem exists_plan_turn (p : Pace τ) (now : τ) (due : Schedule τ) :
    ∃ first, (Phase.turn due).plan p now =
        first ++ .cycle :: (if p.core.isNone then [.count] else []) ∧
      ∀ ev ∈ first, ev.isCycle = false ∧ ev.isCount = false := by
  refine ⟨.turn now :: (p.catchUp due now ++
    if due.display ≤ now then [.poll, .sync, .refresh] else []), ?_, ?_⟩
  · simp only [plan, Pace.turnPlan, List.cons_append, List.append_assoc, List.nil_append]
  · intro ev hev
    rw [List.mem_cons, List.mem_append] at hev
    obtain rfl | hev | hev := hev
    · exact ⟨rfl, rfl⟩
    · obtain rfl | rfl := Pace.eq_of_mem_catchUp hev <;> exact ⟨rfl, rfl⟩
    · obtain rfl | rfl | rfl := Pace.eq_of_mem_display hev <;> exact ⟨rfl, rfl⟩

theorem counts_plan (p : Pace τ) (now : τ) (phase : Phase τ) :
    phase.Counts ((phase.plan p now).countP Event.isCycle)
      ((phase.plan p now).countP Event.isCount) (phase.next p now) := by
  cases phase with
  | opening => exact .opening _
  | turn due =>
    obtain ⟨first, hplan, hfirst⟩ := exists_plan_turn p now due
    have hcycle : first.countP Event.isCycle = 0 :=
      List.countP_eq_zero.2 fun ev hev => by simp [(hfirst ev hev).1]
    have hcount : first.countP Event.isCount = 0 :=
      List.countP_eq_zero.2 fun ev hev => by simp [(hfirst ev hev).2]
    rw [hplan, List.countP_append, List.countP_append, hcycle, hcount]
    cases hcore : p.core with
    | none =>
      simp only [next, hcore]
      exact .turn due _
    | some wait =>
      simp only [next, hcore]
      exact .delayed due _ _
  | waiting due wake =>
    by_cases hwake : wake ≤ now
    · simp only [plan, next, if_pos hwake]
      exact .woken due wake
    · simp only [plan, next, if_neg hwake]
      exact .asleep due wake

/-- Only a turn can fail, and nothing that it carries out or counts comes before. -/
theorem eq_turn_of_canFail {pre post : List (Event τ)} {ev : Event τ}
    (hplan : phase.plan p now = pre ++ ev :: post) (hev : ev.CanFail) :
    (∃ due, phase = .turn due) ∧ ∀ ev' ∈ pre, ev'.isCycle = false ∧ ev'.isCount = false := by
  have hmem : ev ∈ phase.plan p now := by
    rw [hplan]
    exact List.mem_append_right _ List.mem_cons_self
  cases phase with
  | opening =>
    rw [List.mem_singleton.1 hmem] at hev
    exact hev.elim
  | waiting due wake =>
    obtain rfl | hmem := List.mem_cons.1 hmem
    · exact hev.elim
    · rw [eq_count_of_mem hmem] at hev
      exact hev.elim
  | turn due =>
    refine ⟨⟨due, rfl⟩, ?_⟩
    obtain ⟨first, hturn, hfirst⟩ := exists_plan_turn p now due
    rw [hturn] at hplan
    obtain ⟨rest, rfl, hrest⟩ | ⟨rest, rfl, -⟩ := List.append_eq_append_iff.1 hplan
    · cases rest with
      | nil => simpa using hfirst
      | cons _ rest =>
        -- Behind the instruction there is at most its count, which does not fail.
        have hcount : ev ∈ (if p.core.isNone then [.count] else [] : List (Event τ)) := by
          rw [(List.cons.inj hrest).2]
          exact List.mem_append_right _ List.mem_cons_self
        rw [eq_count_of_mem hcount] at hev
        exact hev.elim
    · exact fun ev' hev' => hfirst ev' (List.mem_append_left _ hev')

end Phase

namespace Session

variable {s s' : Session} {evs : List (Event τ)} {standing : Standing τ} {e : Ending}

/-- What happens of a plan that fails neither completes nor counts an instruction. -/
theorem counted_failed (hplan : s.perform (phase.plan p now) = (.error e, s')) :
    (∃ due, phase = .turn due) ∧ s.completed (s.begun (phase.plan p now)) = 0 ∧
      s'.tally.total = s.tally.total := by
  obtain ⟨pre, ev, post, hsplit, hbegun, hpre, hact⟩ := exists_of_perform_error hplan
  obtain ⟨hturn, hcalm⟩ := Phase.eq_turn_of_canFail hsplit (canFail_of_act_error hact)
  have hcycle : pre.countP Event.isCycle = 0 :=
    List.countP_eq_zero.2 fun ev hev => by simp [(hcalm ev hev).1]
  have hcount : pre.countP Event.isCount = 0 :=
    List.countP_eq_zero.2 fun ev hev => by simp [(hcalm ev hev).2]
  refine ⟨hturn, ?_, ?_⟩
  · rw [hbegun, completed_append, completed_of_perform_ok hpre, hcycle, completed_cons, hact]
    simp only [Except.isOk, Except.toBool, Bool.and_false, completed]
    rfl
  · have hev : ev.isCount = false := by
      obtain ⟨rfl, -⟩ | ⟨rfl, -⟩ | ⟨rfl, -⟩ := act_error hact <;> rfl
    have htotal := (s.after pre).total_act ev
    rw [hact, hev, total_after, hcount] at htotal
    exact htotal

/-- Each instruction completed is counted, but for one whose wait is not over. -/
theorem Ran.counted (h : Ran p limit phase s evs standing s') :
    s'.tally.total + Standing.uncounted standing =
      s.tally.total + Standing.uncounted (.ok phase) + s.completed evs := by
  induction h with
  | still => rfl
  | failed hplan =>
    obtain ⟨⟨due, rfl⟩, hcompleted, htotal⟩ := counted_failed hplan
    rw [hcompleted, htotal]
    rfl
  | @finished phase s s' now due hplan hnext _ =>
    have hbalance := (phase.counts_plan p now).balance
    have hnone : Standing.uncounted (.ok (phase.next p now)) = 0 := by rw [hnext]; rfl
    have hfinished : Standing.uncounted (.error .finished : Standing τ) = 0 := rfl
    rw [completed_of_perform_ok hplan, ← after_of_perform_ok hplan, total_after]
    omega
  | @more phase s s' _ now evs _ hplan _ _ ih =>
    have hbalance := (phase.counts_plan p now).balance
    rw [completed_append, completed_of_perform_ok hplan, after_of_perform_ok hplan]
    rw [← after_of_perform_ok hplan, total_after, after_of_perform_ok hplan] at ih
    omega

theorem reached_iff : s.reached limit = true ↔ ∃ n, limit = some n ∧ n ≤ s.tally.total := by
  cases limit with
  | none => exact ⟨nofun, nofun⟩
  | some n => simp [reached]

theorem lt_of_reached_eq_false (h : s.reached limit = false) {n : Int} (hn : limit = some n) :
    s.tally.total < n := by
  refine Int.lt_of_not_ge fun hle => ?_
  rw [reached_iff.2 ⟨n, hn, hle⟩] at h
  cases h

/-- A run that is finished has just reached its limit, unless it was beyond it as it opened. -/
theorem Ran.total_of_finished (h : Ran p limit phase s evs (.error .finished) s')
    (hbelow : phase ≠ .opening → s.reached limit = false) :
    ∃ n, limit = some n ∧ (s'.tally.total : Int) = max (s.tally.total : Int) n := by
  generalize hstanding : (.error .finished : Standing τ) = standing at h
  induction h with
  | still => cases hstanding
  | failed hplan =>
    cases hstanding
    obtain ⟨_, _, _, -, -, -, hact⟩ := exists_of_perform_error hplan
    exact absurd rfl (ne_finished_of_act_error hact)
  | @finished phase s s' now due hplan hnext hreached =>
    obtain ⟨n, hn, hle⟩ := reached_iff.1 hreached
    refine ⟨n, hn, ?_⟩
    have hcounts := phase.counts_plan p now
    have htotal := s.total_after (phase.plan p now)
    rw [hnext] at hcounts
    rw [after_of_perform_ok hplan] at htotal
    generalize (phase.plan p now).countP Event.isCount = counts at hcounts htotal
    generalize (phase.plan p now).countP Event.isCycle = cycles at hcounts
    cases hcounts with
    | opening => omega
    | turn | woken =>
      have := lt_of_reached_eq_false (hbelow nofun) hn
      omega
  | @more phase s s' _ now evs _ hplan hon _ ih =>
    have htotal := s.total_after (phase.plan p now)
    rw [after_of_perform_ok hplan] at htotal
    have hbelow' : s'.reached limit = false := by
      have hcounts := phase.counts_plan p now
      generalize hnext : phase.next p now = phase' at hcounts
      generalize (phase.plan p now).countP Event.isCount = counts at hcounts htotal
      generalize (phase.plan p now).countP Event.isCycle = cycles at hcounts
      cases hcounts with
      | opening | turn | woken => exact hon _ hnext
      | delayed | asleep =>
        have hsame : s'.reached limit = s.reached limit := by
          simp only [reached, htotal, Nat.add_zero]
        rw [hsame]
        exact hbelow nofun
    obtain ⟨n, hn, hmax⟩ := ih (fun _ => hbelow') hstanding
    have := lt_of_reached_eq_false hbelow' hn
    exact ⟨n, hn, by omega⟩

/-- A run that fails does so in a turn that carries out no other instruction before. -/
theorem Ran.turn_of_failed (h : Ran p limit phase s evs (.error e) s') (he : e ≠ .finished) :
    ∃ pre now mid ev, evs = pre ++ .turn now :: (mid ++ [ev]) ∧ (∀ t, .turn t ∉ mid ++ [ev]) ∧
      .cycle ∉ mid ∧ (s.after (pre ++ .turn now :: mid)).act ev = (.error e, s') := by
  generalize hstanding : (.error e : Standing τ) = standing at h
  induction h with
  | still => cases hstanding
  | finished =>
    cases hstanding
    exact absurd rfl he
  | @failed phase s s' now e' hplan =>
    cases hstanding
    obtain ⟨pre, ev, post, hsplit, hbegun, -, hact⟩ := exists_of_perform_error hplan
    obtain ⟨⟨due, rfl⟩, hcalm⟩ := Phase.eq_turn_of_canFail hsplit (canFail_of_act_error hact)
    obtain ⟨first, rest, hrest, -, hfirst, hread⟩ := (Phase.turn due).plan_eq_cons p now
    have hturn : .turn now = first := List.head_eq_of_cons_eq hrest
    have hcons := hrest.symm.trans hsplit
    cases pre with
    | nil =>
      obtain ⟨rfl, -⟩ := List.cons.inj hcons
      exact absurd (canFail_of_act_error hact) hfirst
    | cons _ mid =>
      obtain ⟨rfl, rfl⟩ := List.cons.inj hcons
      subst hturn
      refine ⟨[], now, mid, ev, hbegun, fun t ht => ?_, fun hmem => ?_, hact⟩
      · have hsub : mid ++ [ev] ⊆ mid ++ ev :: post :=
          List.append_subset.2 ⟨List.subset_append_left _ _, by simp⟩
        cases hread _ (hsub ht)
      · cases (hcalm _ (List.mem_cons_of_mem _ hmem)).1
  | more hplan _ _ ih =>
    obtain ⟨pre, now, mid, ev, rfl, hturn, hcycle, hact⟩ := ih hstanding
    refine ⟨_ ++ pre, now, mid, ev, (List.append_assoc ..).symm, hturn, hcycle, ?_⟩
    rw [List.append_assoc, after_append, after_of_perform_ok hplan]
    exact hact

/-- A run reports as an error the fault that ends it, if one does, and nothing more. -/
theorem Ran.errors (h : Ran p limit phase s evs standing s') :
    s'.emulator.errors = s.emulator.errors ++ reported s'.emulator.machine standing := by
  induction h with
  | still => exact (List.append_nil _).symm
  | failed hplan => exact errors_perform hplan
  | finished hplan => exact errors_perform hplan
  | more hplan _ _ ih => rw [ih, errors_perform hplan, reported, List.append_nil]

/-! ## Accounts -/

/-- What a run that is told its limit, begins with the session `s` and brings events does, where it
then stands and leaves the session `s'`. -/
structure Accounts (limit : Option Int) (s : Session) (evs : List (Event τ))
    (standing : Standing τ) (s' : Session) : Prop where
  /-- The events lead where the run does. -/
  leads : s.after evs = s'
  /-- Each instruction completed is counted, but for one whose wait is cut short. -/
  counted : s'.tally.total + Standing.uncounted standing = s.tally.total + s.completed evs
  /-- A run that is finished has just reached its limit, unless it was beyond it before. -/
  finished : standing = .error .finished →
    ∃ n, limit = some n ∧ (s'.tally.total : Int) = max (s.tally.total : Int) n
  /-- The user quits in a turn that carries out no instruction. -/
  quit : standing = .error .quit →
    ∃ pre now rest, evs = pre ++ .turn now :: rest ∧ .cycle ∉ rest ∧ ∀ t, .turn t ∉ rest
  /-- An instruction that fails is the last event, and the run fails as it does. -/
  raised : ∀ pre post e, evs = pre ++ .cycle :: post → (s.after pre).cycle.1 = .error e →
    post = [] ∧ standing = .error e
  /-- A run that ends with a fault ends with an instruction that fails so. -/
  faulty : ∀ f, standing = .error (.fault f) →
    ∃ pre, evs = pre ++ [.cycle] ∧ (s.after pre).cycle.1 = .error (.fault f)
  /-- A fault of the program is reported as an error once, and nothing else is. -/
  errors : s'.emulator.errors = s.emulator.errors ++ reported s'.emulator.machine standing

theorem Ran.accounts (h : Ran p limit .opening s evs standing s') :
    s.Accounts limit evs standing s' where
  leads := h.after_eq
  counted := h.counted
  finished hstanding := by
    rw [hstanding] at h
    exact h.total_of_finished (absurd rfl)
  quit hstanding := by
    rw [hstanding] at h
    obtain ⟨pre, now, mid, ev, hevs, hturn, hcycle, hact⟩ := h.turn_of_failed nofun
    refine ⟨pre, now, mid ++ [ev], hevs, fun hmem => ?_, hturn⟩
    rw [List.mem_append, List.mem_singleton] at hmem
    obtain hmem | rfl := hmem
    · exact hcycle hmem
    · obtain ⟨hpoll, -⟩ | ⟨-, _, hpaint⟩ | ⟨-, _, hfault⟩ := act_error hact
      · cases hpoll
      · cases hpaint
      · cases hfault
  raised pre post e hevs hcycle := h.eq_nil_of_act_error hevs hcycle
  faulty f hstanding := by
    rw [hstanding] at h
    obtain hfinished | ⟨pre, ev, hevs, hact⟩ := h.ended
    · cases hfinished
    obtain ⟨-, hquit⟩ | ⟨-, _, hpaint⟩ | ⟨rfl, -⟩ := act_error hact
    · obtain hquit | hquit := hquit <;> cases hquit
    · cases hpaint
    · exact ⟨pre, hevs, congrArg Prod.fst hact⟩
  errors := h.errors

end Session

/-- What is done with a session. -/
inductive Errand (τ : Type) where
  /-- It runs, to a limit of instructions if there is one, on the readings of a clock. -/
  | run (limit : Option Int) (readings : List τ)
  /-- Something happens to its emulator. -/
  | step (op : Operation)

namespace Session

variable {s : Session} {painted : Nat}

/-- What an errand does to a session. -/
def carry (p : Pace τ) (s : Session) : Errand τ → Session
  | .run limit readings => (s.run p limit readings).2.1
  | .step op => { s with emulator := (s.emulator.step op).2 }

/-- What errands in order do to a session. -/
def carryAll (p : Pace τ) (s : Session) (errands : List (Errand τ)) : Session :=
  errands.foldl (carry p) s

theorem carryAll_wellFormed (h : s.emulator.WellFormed) (p : Pace τ) (errands : List (Errand τ)) :
    (s.carryAll p errands).emulator.WellFormed := by
  induction errands generalizing s with
  | nil => exact h
  | cons errand errands ih =>
    refine ih ?_
    cases errand with
    | run limit readings =>
      rw [carry, ← after_events]
      exact after_wellFormed h _
    | step op => exact Emulator.step_wellFormed h op

theorem Balanced.run (h : s.Balanced painted) (p : Pace τ) (limit : Option Int)
    (readings : List τ) : (s.run p limit readings).2.1.Balanced painted := by
  rw [← after_events]
  exact h.after _

theorem Balanced.carryAll (h : s.Balanced painted) (p : Pace τ) {errands : List (Errand τ)}
    (hrefresh : .step .refresh ∉ errands) : (s.carryAll p errands).Balanced painted := by
  induction errands generalizing s with
  | nil => exact h
  | cons errand errands ih =>
    rw [List.mem_cons, not_or] at hrefresh
    refine ih ?_ hrefresh.2
    cases errand with
    | run limit readings => exact h.run p limit readings
    | step op =>
      have hop : op ≠ .refresh := fun hop => hrefresh.1 (by rw [hop])
      exact h.congr rfl rfl (s.emulator.quiet_step hop).frames

theorem Titled.carryAll {first : Option String} (h : s.Titled first) (p : Pace τ)
    (errands : List (Errand τ)) : (s.carryAll p errands).Titled first := by
  induction errands generalizing s with
  | nil => exact h
  | cons errand errands ih =>
    refine ih ?_
    cases errand with
    | run limit readings =>
      rw [carry, ← after_events]
      exact h.after _
    | step op => exact h.congr (s.emulator.title?_step op) rfl

/-- **Accounting.** A new session is used for any runs at a pace, on any readings, and between them
anything but a refresh happens to its emulator. Then its reports and what it counted since add up
to the instructions it counted and to the frames painted since it was new, and so they do behind
each run that follows, at whichever point that ends. All the while the title of its window, if there
is one, is that of the last report, or the one it had when it was new. The run counts what it
completes, and reports an error if and only if it ends with a fault of the program. -/
theorem carryAll_accounts (p : Pace τ) {s : Session} (htally : s.tally = {})
    (hreports : s.reports = #[]) {errands : List (Errand τ)}
    (hrefresh : .step .refresh ∉ errands) :
    let d := s.carryAll p errands
    let painted := s.emulator.host.presenter.framesDrawn
    let title := s.emulator.title?
    d.Balanced painted ∧ d.Titled title ∧
      ∀ limit readings,
        (d.run p limit readings).2.1.Balanced painted ∧
          (∀ pre, pre <+: d.events p limit readings → (d.after pre).Titled title) ∧
          d.Accounts limit (d.events p limit readings) (d.run p limit readings).1
            (d.run p limit readings).2.1 := by
  intro d painted title
  have hnew : s.Balanced painted := by
    constructor
    · rw [htally, hreports]
      rfl
    · rw [htally, hreports]
      rfl
  have hd : d.Balanced painted := hnew.carryAll p hrefresh
  have htitled : d.Titled title := (titled_new hreports).carryAll p errands
  refine ⟨hd, htitled, fun limit readings => ⟨hd.run p limit readings, ?_, ?_⟩⟩
  · exact fun pre _ => htitled.after pre
  · exact (ran_events p limit d readings).accounts

/-- A session with a window that draws a sprite and adds to a register, up to its limit of two
instructions, and then comes upon a word that is none. -/
theorem carryAll_accounts_fault :
    let p : Pace Nat :=
      { timer := 1, display := 1, report := 4, core := none, mostTicks := fun t now => now - t + 1 }
    let program : List UInt8 := [0xD0, 0x05, 0x71, 0x01, 0xFF, 0xFF]
    let system : WindowSystem :=
      { start := .ok (), openWindow := fun _ => .ok (), showPicture := fun _ _ _ => .ok () }
    let presenter : Presenter := .windowed system 64 ⟨.ofNat 0, .ofNat 0xFFFFFF⟩
    let s : Session :=
      { emulator := { machine := .fresh program, host := { Host.still with presenter } } }
    let d := s.carryAll p [.run (some 2) [0, 0, 4], .step .resume]
    d.tally = { frames := 1, ops := 1, total := 2 } ∧
      (d.run p none [5, 5]).2.1.Balanced 0 ∧
      (d.run p none [5, 5]).2.1.emulator.title? = some "MonoChip Virtual Machine - 1 FPS, 1 OPS" ∧
      (d.run p none [5, 5]).1 = .error (.fault (.decode 0xFFFF 0x204)) ∧
      (d.run p none [5, 5]).2.1.tally.total = 2 ∧
      (d.run p none [5, 5]).2.1.emulator.errors =
        Ending.reported (d.run p none [5, 5]).2.1.emulator.machine
          (.fault (.decode 0xFFFF 0x204)) := by
  intro p program system presenter s d
  have hrefresh : .step .refresh ∉ ([.run (some 2) [0, 0, 4], .step .resume] : List (Errand Nat)) :=
    by simp
  have hruns : ∀ limit readings, (d.run p limit readings).2.1.Balanced 0 ∧
      (∀ pre, pre <+: d.events p limit readings →
        (d.after pre).Titled (some "MonoChip Virtual Machine")) ∧
      d.Accounts limit (d.events p limit readings) (d.run p limit readings).1
        (d.run p limit readings).2.1 := (carryAll_accounts p (s := s) rfl rfl hrefresh).2.2
  obtain ⟨hbalanced, htitled, haccounts⟩ := hruns none [5, 5]
  let turn : List (Event Nat) := [.opening 5, .turn 5, .report, .tick, .poll, .sync, .refresh]
  obtain ⟨htally, hnone, hevs, hcompleted, hlast⟩ :
      d.tally = { frames := 1, ops := 1, total := 2 } ∧
      d.emulator.errors = [] ∧ d.events p none [5, 5] = turn ++ .cycle :: [] ∧
      d.completed (turn ++ .cycle :: []) = 0 ∧
      (d.run p none [5, 5]).2.1.reports.back? = some { frames := 1, ops := 1 } := by decide +kernel
  obtain ⟨hmode, hword, hip⟩ : (d.after turn).emulator.mode = .running ∧
      (d.after turn).emulator.word = 0xFFFF ∧ (d.after turn).emulator.machine.ip = 0x204 := by
    decide +kernel
  have hs : s.emulator.WellFormed := ⟨Machine.wellFormed_fresh (by decide), rfl⟩
  have hd : d.emulator.WellFormed := carryAll_wellFormed hs p _
  have hcycle : (d.after turn).cycle.1 = .error (.fault (.decode 0xFFFF 0x204)) := by
    have hundecoded : Instr.ofWord? (d.after turn).emulator.word = none := by
      rw [hword]
      decide
    have hcycle := Emulator.cycle_undecoded (after_wellFormed hd turn) hmode hundecoded
    rw [hword, hip] at hcycle
    rw [Session.cycle, hcycle]
    rfl
  have htitle : (d.run p none [5, 5]).2.1.Titled (some "MonoChip Virtual Machine") := by
    rw [← haccounts.leads]
    exact htitled _ List.prefix_rfl
  obtain ⟨-, hstanding⟩ := haccounts.raised turn [] _ hevs hcycle
  refine ⟨htally, hbalanced, (htitle.title?_eq hlast).trans (by decide), hstanding, ?_, ?_⟩
  · have hcounted := haccounts.counted
    have htotal : d.tally.total = 2 := congrArg Tally.total htally
    have hall : Standing.uncounted (d.run p none [5, 5]).1 = 0 := by
      rw [hstanding]
      rfl
    rw [hevs] at hcounted
    omega
  · refine haccounts.errors.trans ?_
    rw [hstanding, hnone, List.nil_append]
    rfl

end Session

end Chip8
