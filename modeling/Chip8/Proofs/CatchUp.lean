import Chip8.Proofs.Plan
import Mathlib.Data.Set.Card

/-!
# Catching up on timer ticks

On an exact clock the tick of number `k` is due `k` sixtieths of a second after the run opens. Each
turn makes the ticks that are due when it begins and were not made before, so that behind them just
those ticks are made that have come due at one turn or another. This holds for readings of any kind,
also where the clock stands still, leaps or goes back.

* `Pace.ticksDue_exact`: the ticks that are due at a time.
* `CaughtUp`: no tick is left to be made, and none was made too early.
* `Session.Ran.caughtUp`: so it is all through a run, except while ticks are made.
* `Session.encard_ticks`: how many ticks a run has made.
-/

namespace Chip8

/-! ## Ticks that are due -/

namespace Pace

theorem countTicks_eq (interval now : Rat) (most n : Nat) (next : Rat) :
    ∃ k ≤ most, countTicks interval now most (n, next) = (n + k, next + k * interval) ∧
      (∀ j : Nat, j < k → next + j * interval ≤ now) ∧
      (k < most → now < next + k * interval) := by
  have hzero : ∀ t : Rat, t + ((0 : Nat) : Rat) * interval = t := by
    intro t
    grind
  induction most generalizing n next with
  | zero =>
    refine ⟨0, Nat.le_refl 0, ?_, nofun, nofun⟩
    rw [hzero]
    rfl
  | succ most ih =>
    by_cases hdue : next ≤ now
    · obtain ⟨k, hk, heq, hmade, hahead⟩ := ih (n + 1) (next + interval)
      have hnext : ∀ j : Nat, next + interval + j * interval = next + (j + 1 : Nat) * interval := by
        intro j
        grind
      refine ⟨k + 1, Nat.succ_le_succ hk, ?_, ?_, ?_⟩
      · rw [countTicks, if_pos hdue, heq, hnext, Nat.add_assoc, Nat.add_comm 1]
      · intro j hj
        cases j with
        | zero => rwa [hzero]
        | succ j =>
          rw [← hnext]
          exact hmade j (Nat.lt_of_succ_lt_succ hj)
      · intro hlt
        rw [← hnext]
        exact hahead (Nat.lt_of_succ_lt_succ hlt)
    · refine ⟨0, Nat.zero_le _, ?_, nofun, fun _ => ?_⟩
      · rw [countTicks, if_neg hdue, hzero]
        rfl
      · rw [hzero]
        exact Rat.not_le.1 hdue

/-- On an exact clock there are always enough ticks between two times to catch up. -/
theorem ticksDue_exact (core : Option Rat) (next now : Rat) :
    ∃ k : Nat, (exact core).ticksDue next now = (k, next + k / 60) ∧
      (∀ j : Nat, j < k → next + j / 60 ≤ now) ∧ now < next + k / 60 := by
  obtain ⟨k, hk, heq, hmade, hahead⟩ :=
    countTicks_eq (1 / 60) now ((exact core).mostTicks next now) 0 next
  have hdiv : ∀ j : Nat, (j : Rat) * (1 / 60) = j / 60 := by
    intro j
    grind
  simp only [hdiv, Nat.zero_add] at heq hmade hahead
  refine ⟨k, heq, hmade, ?_⟩
  obtain hlt | rfl := Nat.lt_or_eq_of_le hk
  · exact hahead hlt
  · -- As many ticks are made as there can be: the time is less than the next whole sixtieth.
    have hfloor := Rat.lt_floor_add_one ((now - next) * 60)
    have hmost : ((now - next) * 60).floor + 1 ≤ ((exact core).mostTicks next now : Int) := by
      have : (exact core).mostTicks next now = ((now - next) * 60).floor.toNat + 1 := rfl
      omega
    have hcast : (((now - next) * 60).floor + 1 : Int) ≤
        (((exact core).mostTicks next now : Int) : Rat) := by exact_mod_cast hmost
    have hcast' : (((exact core).mostTicks next now : Int) : Rat) =
        (exact core).mostTicks next now := by push_cast; rfl
    grind

end Pace
/-! ## Catching up -/

/-- Behind `past`, with the next tick due at `next`, a run that opened at `start` has made all the
ticks that have come due, and no other. -/
structure CaughtUp (start next : Rat) (past : List (Event Rat)) : Prop where
  /-- The next tick is due in its place behind those made. -/
  next_eq : next = start + (past.count .tick : Rat) / 60
  /-- No turn has begun at that time or behind it. -/
  ahead : ∀ now, .turn now ∈ past → now < next
  /-- Each tick made was due in a turn. -/
  made : ∀ k : Nat, k < past.count .tick → ∃ now, .turn now ∈ past ∧ start + k / 60 ≤ now

/-- The event begins a turn or belongs to what a turn begins with. -/
def Event.Opens {τ : Type} : Event τ → Prop
  | .turn _ | .report | .tick => True
  | _ => False

namespace CaughtUp

variable {start next : Rat} {past evs : List (Event Rat)}

theorem nil (start : Rat) : CaughtUp start start [] where
  next_eq := by
    rw [List.count_nil]
    grind
  ahead := nofun
  made := nofun

/-- Other events leave it so. -/
theorem append (h : CaughtUp start next past) (hevs : ∀ ev ∈ evs, ¬ ev.Opens) :
    CaughtUp start next (past ++ evs) := by
  have htick : evs.count .tick = 0 := List.count_eq_zero.2 fun hmem => hevs .tick hmem trivial
  have hcount : (past ++ evs).count .tick = past.count .tick := by
    rw [List.count_append, htick, Nat.add_zero]
  have hturn : ∀ now, .turn now ∈ past ++ evs ↔ .turn now ∈ past := by
    intro now
    rw [List.mem_append, or_iff_left fun hmem => hevs (.turn now) hmem trivial]
  exact {
    next_eq := by rw [hcount, h.next_eq]
    ahead := fun now hnow => h.ahead now ((hturn now).1 hnow)
    made := fun k hk => by simpa only [hturn] using h.made k (hcount ▸ hk) }

/-- A turn makes the ticks that are due. -/
theorem turn (h : CaughtUp start next past) {now : Rat} {k : Nat}
    (hticks : evs.count .tick = k) (hturns : ∀ t, .turn t ∉ evs)
    (hmade : ∀ j : Nat, j < k → next + j / 60 ≤ now) (hahead : now < next + k / 60) :
    CaughtUp start (next + k / 60) (past ++ .turn now :: evs) := by
  have hcount : (past ++ .turn now :: evs).count .tick = past.count .tick + k := by
    have hne : (.turn now : Event Rat) ≠ .tick := nofun
    rw [List.count_append, List.count_cons_of_ne hne, hticks]
  have hplace : ∀ j : Nat,
      start + ((past.count .tick + j : Nat) : Rat) / 60 = next + j / 60 := by
    intro j
    rw [h.next_eq]
    grind
  refine ⟨?_, ?_, ?_⟩
  · rw [hcount, hplace]
  · intro t ht
    rw [List.mem_append, List.mem_cons] at ht
    obtain ht | ht | ht := ht
    · have := h.ahead t ht
      grind
    · cases ht
      exact hahead
    · exact absurd ht (hturns t)
  · intro j hj
    rw [hcount] at hj
    by_cases hold : j < past.count .tick
    · obtain ⟨t, ht, hle⟩ := h.made j hold
      exact ⟨t, List.mem_append_left _ ht, hle⟩
    · -- The tick is one of those of this turn.
      obtain ⟨i, rfl⟩ := Nat.exists_eq_add_of_le (Nat.le_of_not_lt hold)
      refine ⟨now, List.mem_append_right _ List.mem_cons_self, ?_⟩
      rw [hplace]
      exact hmade i (Nat.lt_of_add_lt_add_left hj)

/-- As many ticks are made as there are numbers of ticks that have come due at the latest turn. -/
theorem encard_due (h : CaughtUp start next past) {latest : Rat}
    (hlatest : IsGreatest {now | .turn now ∈ past} latest) :
    {k : ℕ | start + k / 60 ≤ latest}.encard = past.count .tick := by
  have hset : {k : ℕ | start + k / 60 ≤ latest} = Finset.range (past.count .tick) := by
    ext k
    rw [Set.mem_ofPred_eq, Finset.mem_coe, Finset.mem_range]
    constructor
    · intro hk
      by_contra hle
      have hcast : (past.count .tick : Rat) ≤ k := by exact_mod_cast Nat.le_of_not_lt hle
      have hahead := h.ahead latest hlatest.1
      have hnext := h.next_eq
      grind
    · intro hk
      obtain ⟨now, hnow, hle⟩ := h.made k hk
      exact Rat.le_trans hle (hlatest.2 hnow)
  rw [hset, Set.encard_coe_eq_coe_finsetCard, Finset.card_range]

end CaughtUp

/-! ## Catching up all through a run -/

namespace Phase

variable {τ : Type} [Add τ] [LE τ] [DecidableLE τ]

/-- What is due next, in a run that has opened. -/
def due? : Phase τ → Option (Schedule τ)
  | .opening => none
  | .turn due | .waiting due _ => some due

/-- What a plan begins with: a turn catches up on what is due. -/
def catchUp (p : Pace τ) (now : τ) : Phase τ → List (Event τ)
  | .turn due => .turn now :: p.catchUp due now
  | _ => []

variable {p : Pace τ} {now : τ} {phase : Phase τ}

theorem not_canFail_of_mem_catchUp {ev : Event τ} (h : ev ∈ phase.catchUp p now) :
    ¬ ev.CanFail := by
  cases phase with
  | opening | waiting => cases h
  | turn due =>
    obtain rfl | h := List.mem_cons.1 h
    · exact id
    · obtain rfl | rfl := Pace.eq_of_mem_catchUp h <;> exact id

/-- Once catching up has begun, it goes on with a report or a tick. -/
theorem eq_of_catchUp_eq {pre post : List (Event τ)} {ev : Event τ}
    (h : phase.catchUp p now = pre ++ ev :: post) : pre = [] ∨ ev = .report ∨ ev = .tick := by
  cases phase with
  | opening | waiting => exact .inl (List.append_eq_nil_iff.1 h.symm).1
  | turn due =>
    cases pre with
    | nil => exact .inl rfl
    | cons first pre =>
      have htail : p.catchUp due now = pre ++ ev :: post := List.tail_eq_of_cons_eq h
      have hmem : ev ∈ p.catchUp due now := by
        rw [htail]
        exact List.mem_append_right _ List.mem_cons_self
      exact .inr (Pace.eq_of_mem_catchUp hmem)

/-- What follows in the plan opens nothing more. -/
theorem exists_plan_eq_append (p : Pace τ) (now : τ) (phase : Phase τ) :
    ∃ rest, phase.plan p now = phase.catchUp p now ++ rest ∧ ∀ ev ∈ rest, ¬ ev.Opens := by
  cases phase with
  | opening =>
    refine ⟨_, rfl, ?_⟩
    rw [List.forall_mem_singleton]
    exact id
  | turn due =>
    refine ⟨_, congrArg (Event.turn now :: ·) (List.append_assoc ..), fun ev hev => ?_⟩
    simp only [List.mem_append, List.mem_singleton] at hev
    obtain (hev | rfl) | hev := hev
    · obtain rfl | rfl | rfl := Pace.eq_of_mem_display hev <;> exact id
    · exact id
    · rw [eq_count_of_mem hev]
      exact id
  | waiting due wake =>
    refine ⟨_, rfl, fun ev hev => ?_⟩
    obtain rfl | hev := List.mem_cons.1 hev
    · exact id
    · rw [eq_count_of_mem hev]
      exact id

end Phase

namespace CaughtUp

variable {start next : Rat} {past pre post first calm rest : List (Event Rat)}

/-- A reading of the clock keeps a run caught up. -/
theorem catchUp {phase : Phase Rat} {due : Schedule Rat} (h : CaughtUp start due.tick past)
    (core : Option Rat) (hdue : phase.due? = some due) (now : Rat) :
    ∃ due', (phase.next (.exact core) now).due? = some due' ∧
      CaughtUp start due'.tick (past ++ phase.catchUp (.exact core) now) := by
  cases phase with
  | opening => cases hdue
  | turn due =>
    cases hdue
    obtain ⟨k, hk, hmade, hahead⟩ := Pace.ticksDue_exact core due.tick now
    refine ⟨due.advance (.exact core) now, ?_, ?_⟩
    · cases core <;> rfl
    · have hticks : ((Pace.exact core).catchUp due now).count .tick = k := by
        rw [Pace.catchUp, List.count_append, hk, List.count_replicate_self]
        split <;> simp
      have hturns : ∀ t, .turn t ∉ (Pace.exact core).catchUp due now := by
        intro t ht
        obtain ht | ht := Pace.eq_of_mem_catchUp ht <;> cases ht
      have hnext : (due.advance (.exact core) now).tick = due.tick + k / 60 := by
        rw [Schedule.advance, hk]
      rw [hnext]
      exact h.turn hticks hturns hmade hahead
  | waiting due wake =>
    cases hdue
    refine ⟨due, ?_, ?_⟩
    · by_cases hwake : wake ≤ now
      · simp only [Phase.next, if_pos hwake, Phase.due?]
      · simp only [Phase.next, if_neg hwake, Phase.due?]
    · have hnil : (Phase.waiting due wake).catchUp (.exact core) now = [] := rfl
      rw [hnil, List.append_nil]
      exact h

/-- Where the events of a plan are cut, a run is caught up, unless the cut is before a report or a
tick. -/
theorem of_cut {p : Pace Rat} {phase : Phase Rat} {now next' : Rat}
    (h : CaughtUp start next past) (h' : CaughtUp start next' (past ++ phase.catchUp p now))
    (hcalm : ∀ ev ∈ calm, ¬ ev.Opens)
    (heq : phase.catchUp p now ++ calm ++ rest = pre ++ post)
    (hreport : post.head? ≠ some .report) (htick : post.head? ≠ some .tick) :
    (∃ t, CaughtUp start t (past ++ pre)) ∨
      ∃ pre', pre = phase.catchUp p now ++ calm ++ pre' ∧ rest = pre' ++ post := by
  obtain ⟨pre', hpre, hrest⟩ | ⟨mid, hplan, hpost⟩ := List.append_eq_append_iff.1 heq
  · exact .inr ⟨pre', hpre, hrest⟩
  left
  obtain ⟨calm', rfl, hsplit⟩ | ⟨cut, hcut, hmid⟩ := List.append_eq_append_iff.1 hplan
  · refine ⟨next', ?_⟩
    rw [← List.append_assoc]
    refine h'.append fun ev hev => hcalm ev ?_
    rw [hsplit]
    exact List.mem_append_left _ hev
  · cases cut with
    | nil =>
      rw [List.append_nil] at hcut
      exact ⟨next', hcut ▸ h'⟩
    | cons ev cut =>
      obtain rfl | rfl | rfl := Phase.eq_of_catchUp_eq hcut
      · exact ⟨next, by rwa [List.append_nil]⟩
      · rw [hpost, hmid] at hreport
        exact absurd rfl hreport
      · rw [hpost, hmid] at htick
        exact absurd rfl htick

/-- What a reading brings keeps a run caught up, and so does each part of it that ends behind
catching up. -/
theorem begun {phase : Phase Rat} {due : Schedule Rat} (h : CaughtUp start due.tick past)
    (core : Option Rat) (hdue : phase.due? = some due) (s : Session) (now : Rat) :
    let done := s.begun (phase.plan (.exact core) now)
    ∃ due', (phase.next (.exact core) now).due? = some due' ∧
      CaughtUp start due'.tick (past ++ done) ∧
      ∀ pre post rest, done ++ rest = pre ++ post → post.head? ≠ some .report →
        post.head? ≠ some .tick →
        (∃ t, CaughtUp start t (past ++ pre)) ∨
          ∃ pre', pre = done ++ pre' ∧ rest = pre' ++ post := by
  intro done
  obtain ⟨due', hdue', h'⟩ := h.catchUp core hdue now
  obtain ⟨calm, hsplit, hcalm⟩ := phase.exists_plan_eq_append (.exact core) now
  obtain ⟨s', hok⟩ : ∃ s', s.perform (phase.catchUp (.exact core) now) = (.ok (), s') :=
    ⟨_, Session.perform_of_not_canFail (fun _ => Phase.not_canFail_of_mem_catchUp) s⟩
  have hdone : done = phase.catchUp (.exact core) now ++ s'.begun calm := by
    rw [← Session.begun_append_of_ok hok, ← hsplit]
  have hbegun : ∀ ev ∈ s'.begun calm, ¬ ev.Opens := fun ev hev =>
    hcalm ev ((Session.isPrefix_begun _ _).subset hev)
  rw [hdone]
  refine ⟨due', hdue', ?_, fun pre post rest => h.of_cut h' hbegun⟩
  rw [← List.append_assoc]
  exact h'.append hbegun

end CaughtUp

/-- Wherever a run is cut, it is caught up, unless the cut is before a report or a tick. -/
theorem Session.Ran.caughtUp {core : Option Rat} {limit : Option Int} {phase : Phase Rat}
    {s s' : Session} {evs pre post : List (Event Rat)} {standing : Standing Rat}
    (hran : Session.Ran (.exact core) limit phase s evs standing s') {due : Schedule Rat}
    (hdue : phase.due? = some due) {start : Rat} {past : List (Event Rat)}
    (h : CaughtUp start due.tick past) (heq : evs = pre ++ post)
    (hreport : post.head? ≠ some .report) (htick : post.head? ≠ some .tick) :
    ∃ next, CaughtUp start next (past ++ pre) := by
  -- A last reading: all that it brings, and nothing else, can be cut.
  have hlast : ∀ {phase : Phase Rat} {s : Session} {now : Rat} {due : Schedule Rat}
      {past pre : List (Event Rat)}, phase.due? = some due → CaughtUp start due.tick past →
      s.begun (phase.plan (.exact core) now) = pre ++ post →
      ∃ next, CaughtUp start next (past ++ pre) := by
    intro phase s now due past pre hdue h heq
    obtain ⟨due', -, hdone, hcut⟩ := h.begun core hdue s now
    obtain hcaught | ⟨pre', rfl, hnil⟩ :=
      hcut pre post [] ((List.append_nil _).trans heq) hreport htick
    · exact hcaught
    · obtain ⟨rfl, rfl⟩ := List.append_eq_nil_iff.1 hnil.symm
      rw [List.append_nil]
      exact ⟨due'.tick, hdone⟩
  induction hran generalizing due past pre with
  | still =>
    obtain ⟨rfl, rfl⟩ := List.append_eq_nil_iff.1 heq.symm
    exact ⟨_, by rwa [List.append_nil]⟩
  | failed => exact hlast hdue h heq
  | finished hplan =>
    rw [← begun_of_perform_ok hplan] at heq
    exact hlast hdue h heq
  | @more _ s _ _ now _ _ hplan _ _ ih =>
    obtain ⟨due', hdue', hdone, hcut⟩ := h.begun core hdue s now
    rw [begun_of_perform_ok hplan] at hdone hcut
    obtain hcaught | ⟨pre', rfl, hrest⟩ := hcut pre post _ heq hreport htick
    · exact hcaught
    · rw [← List.append_assoc]
      exact ih hdue' hdone hrest

/-- Wherever a run is cut behind the beginning of a turn, unless before a report or a tick, it has
made as many ticks as have come due at the latest of its turns. -/
theorem Session.encard_ticks {core : Option Rat} {limit : Option Int} {s : Session} {start : Rat}
    {later : List Rat} {pre post : List (Event Rat)}
    (heq : s.events (.exact core) limit (start :: later) = pre ++ post)
    (hreport : post.head? ≠ some .report) (htick : post.head? ≠ some .tick) {latest : Rat}
    (hlatest : IsGreatest {now | .turn now ∈ pre} latest) :
    {k : ℕ | start + k / 60 ≤ latest}.encard = pre.count .tick := by
  have hopened : CaughtUp start start ([] ++ [.opening start]) := by
    refine (CaughtUp.nil start).append ?_
    rw [List.forall_mem_singleton]
    exact id
  suffices hcaught : ∃ next, CaughtUp start next pre by
    obtain ⟨next, h⟩ := hcaught
    exact h.encard_due hlatest
  rw [events_cons] at heq
  obtain ⟨rfl, -⟩ | ⟨pre', rfl, hrest⟩ := List.cons_eq_append_iff.1 heq
  · exact ⟨start, .nil start⟩
  by_cases hreached : s.reached limit = true
  · rw [if_pos hreached] at hrest
    obtain ⟨rfl, -⟩ := List.append_eq_nil_iff.1 hrest.symm
    exact ⟨start, hopened⟩
  · rw [if_neg hreached] at hrest
    exact (ran_eventsFrom (.exact core) limit _ s later).caughtUp rfl hopened hrest hreport htick

end Chip8
