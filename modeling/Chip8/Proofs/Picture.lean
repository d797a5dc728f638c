import Chip8.Proofs.Footprint
import Chip8.Proofs.Painting

/-!
# Pictures

What a presenter shows is the screen as it was at the last refresh that painted. A sprite asks for a
redraw; what clears the screen does not. So a picture is up to date, or a redraw is due, until the
screen is wiped behind a picture that is not clear.

* `Emulator.picture`: the picture behind operations in order.
* `Emulator.UpToDate`: the picture is the screen unless a redraw is due.
* `Emulator.Wipes`: the operations that clear the screen.
* `Emulator.pictured_step`: what an operation does to the screen, the picture and what is due.
* `Emulator.upToDate_step_iff`: when a picture is up to date behind an operation.
* `Emulator.upToDate_run_iff`: when it is so throughout a run.
* `Emulator.picture_stale`: a program that clears the screen, and a program that is loaded, leave a
  picture of what was there before.
-/

namespace Chip8

/-- A clear screen of the standard size is the standard screen. -/
theorem Machine.WellFormed.clear_screen {m : Machine} (h : m.WellFormed) :
    m.screen.clear = Screen.standard := by
  have hsize := h.size_cells
  obtain ⟨hw, hh⟩ := h.screen_size
  generalize m.screen = s at hsize hw hh ⊢
  obtain ⟨width, height, cells, hcells⟩ := s
  subst hw hh
  simp only [Screen.clear, Memory.clear, hsize]
  rfl

namespace Emulator

/-- The picture behind an operation: a refresh that paints makes it the present screen. -/
def pictureAfter (e : Emulator) (picture : Screen) : Operation → Screen
  | .refresh =>
    match e.refresh.1 with
    | .ok true => e.machine.screen
    | _ => picture
  | _ => picture

/-- The picture behind operations in order. -/
def picture (e : Emulator) (shown : Screen) : List Operation → Screen
  | [] => shown
  | op :: ops => (e.step op).2.picture (e.pictureAfter shown op) ops

/-- Unless a redraw is due, the picture is the present screen. -/
def UpToDate (e : Emulator) (picture : Screen) : Prop :=
  e.host.presenter.redrawPending = false → picture = e.machine.screen

/-- The operation clears the screen: it takes another machine or carries out the instruction that
does so. -/
def Wipes (e : Emulator) : Operation → Prop
  | .load program => program.length ≤ 3584
  | .boot => True
  | .cycle => e.mode = .running ∧ Kind.cls.Matches e.word
  | _ => False

variable {e : Emulator} {shown : Screen} {op : Operation}

/-! ## One operation -/

/-- What an operation does to the screen, the picture, and the redraw that is due. -/
inductive Pictured (e : Emulator) (shown : Screen) (op : Operation) : Prop where
  /-- None of them changes. -/
  | kept (hw : ¬ e.Wipes op) (hscreen : (e.step op).2.machine.screen = e.machine.screen)
      (hdue : (e.step op).2.host.presenter.redrawPending = e.host.presenter.redrawPending)
      (hpicture : e.pictureAfter shown op = shown)
  /-- The screen is wiped, and no redraw asked for. -/
  | wiped (hw : e.Wipes op) (hscreen : (e.step op).2.machine.screen = Screen.standard)
      (hdue : (e.step op).2.host.presenter.redrawPending = e.host.presenter.redrawPending)
      (hpicture : e.pictureAfter shown op = shown)
  /-- A sprite is drawn, and a redraw asked for. -/
  | drawn (hw : ¬ e.Wipes op) (hdue : (e.step op).2.host.presenter.redrawPending = true)
  /-- The screen is painted. -/
  | painted (hw : ¬ e.Wipes op) (hpicture : e.pictureAfter shown op = (e.step op).2.machine.screen)

theorem not_wipes_of_kind {i : Instr} (hi : Instr.ofWord? e.word = some i) (hk : i.kind ≠ .cls) :
    ¬ e.Wipes .cycle := by
  rintro ⟨-, hcls⟩
  exact hk ((Instr.matches_of_ofWord? e.word_lt hi).unique hcls)

/-- An instruction that goes through wipes the screen, draws on it or leaves it. -/
theorem pictured_of_exec (he : e.WellFormed) (hr : e.mode = .running) {i : Instr}
    {m : Machine} (hi : Instr.ofWord? e.word = some i)
    (hexec : i.exec e.machine.advance e.host = .ok (m, i.touch e.host))
    (hcycle : e.cycle = (.ok (), { e.advance.trace i with machine := m, host := i.touch e.host })) :
    e.Pictured shown .cycle := by
  have hscreen : (e.step .cycle).2.machine.screen = m.screen := by rw [step, hcycle]
  have hdue : (e.step .cycle).2.host.presenter.redrawPending =
      (e.host.presenter.redrawPending || i.kind = .draw) := by
    rw [step, hcycle, Instr.touch_eq]
  by_cases hcls : i.kind = .cls
  · have hmatch : Kind.cls.Matches e.word := hcls ▸ Instr.matches_of_ofWord? e.word_lt hi
    have hclear : m.screen = Screen.standard := by
      simp only [Instr.exec, hcls, Except.ok.injEq, Prod.mk.injEq] at hexec
      rw [← hexec.1]
      exact he.machine.advance.clear_screen
    exact .wiped ⟨hr, hmatch⟩ (hscreen.trans hclear) (by simpa [hcls] using hdue) rfl
  by_cases hdraw : i.kind = .draw
  · exact .drawn (not_wipes_of_kind hi hcls) (by simpa [hdraw] using hdue)
  · have hout : ¬ i.Writes e.machine.advance .screen := by simp [Instr.Writes, hcls, hdraw]
    have hsame : e.machine.SameAt m .screen :=
      (e.machine.sameAt_advance .screen).trans (Instr.exec_sameAt he.machine.advance hexec hout)
    refine .kept (not_wipes_of_kind hi hcls) (hscreen.trans hsame) ?_ rfl
    simpa [hdraw] using hdue

theorem pictured_cycle (he : e.WellFormed) : e.Pictured shown .cycle := by
  cases hr : e.mode with
  | idle =>
    have hnot : ¬ e.Wipes .cycle := fun h => by simp [Wipes, hr] at h
    refine .kept hnot ?_ ?_ rfl
    · rw [step, cycle_idle hr, machine_trace]
    · rw [step, cycle_idle hr, host_trace]
  | running =>
    have hc := cycle_cycled he hr
    -- A word that is no instruction, and a call or a return that fails, leave screen and presenter.
    have hfailed : ¬ e.Wipes .cycle → e.cycle.2.machine = e.machine.advance →
        e.cycle.2.host = e.host → e.Pictured shown .cycle := by
      intro hnot hmachine hhost
      refine .kept hnot ?_ ?_ rfl
      · rw [step, hmachine, Machine.advance]
      · rw [step, hhost]
    generalize hcycle : e.cycle = r at hc hfailed
    cases hc with
    | undecoded hw => exact hfailed (fun h => hw _ h.2) rfl rfl
    | overflow i hi hk | underflow i hi hk =>
      exact hfailed (not_wipes_of_kind hi (by simp [hk])) (machine_trace ..) (host_trace ..)
    | done i hi m _ _ hexec => exact pictured_of_exec he hr hi hexec hcycle

theorem pictured_step (he : e.WellFormed) (hshows : e.host.presenter.Shows (64, 32))
    (shown : Screen) (op : Operation) : e.Pictured shown op := by
  cases op with
  | load program =>
    obtain h | h := Nat.lt_or_ge 3584 program.length
    · refine .kept (Nat.not_le_of_gt h) ?_ ?_ rfl <;> rw [step, load_refused he.machine h]
    · refine .wiped h ?_ ?_ rfl <;> rw [step, load_ok he.machine h] <;> rfl
  | boot => refine .wiped trivial ?_ ?_ rfl <;> rfl
  | cycle => exact pictured_cycle he
  | tick | idle | resume | hold => exact .kept id rfl rfl rfl
  | refresh =>
    have hpainted : e.refresh.1 = .ok e.host.presenter.redrawPending :=
      Presenter.refresh_ok hshows he.machine
    cases hdue : e.host.presenter.redrawPending with
    | true =>
      refine .painted id ?_
      rw [pictureAfter, hpainted, hdue]
      rfl
    | false =>
      have hnone : e.host.presenter.refresh e.machine.screen = (.ok false, e.host.presenter) :=
        Presenter.refresh_of_not_pending hdue _
      refine .kept id rfl ?_ ?_
      · rw [step, refresh, hnone]
        rfl
      · rw [pictureAfter, hpainted, hdue]

/-- A picture that is up to date stays so, unless the screen is wiped behind one that is not clear
while no redraw is due. -/
theorem upToDate_step_iff (he : e.WellFormed) (hshows : e.host.presenter.Shows (64, 32))
    (hp : e.UpToDate shown) (op : Operation) :
    (e.step op).2.UpToDate (e.pictureAfter shown op) ↔
      (e.Wipes op → e.host.presenter.redrawPending = true ∨ shown = Screen.standard) := by
  cases pictured_step he hshows shown op with
  | kept hw hscreen hdue hpicture =>
    refine iff_of_true ?_ fun h => absurd h hw
    rw [UpToDate, hscreen, hdue, hpicture]
    exact hp
  | wiped hw hscreen hdue hpicture =>
    rw [UpToDate, hscreen, hdue, hpicture]
    cases e.host.presenter.redrawPending <;> simp [hw]
  | drawn hw hdue =>
    refine iff_of_true ?_ fun h => absurd h hw
    intro hnone
    rw [hdue] at hnone
    cases hnone
  | painted hw hpicture => exact iff_of_true (fun _ => hpicture) fun h => absurd h hw

/-! ## Runs -/

/-- **Pictures.** Throughout a run that begins with a picture that is up to date, and in which no
picture is refused, the picture is the present screen whenever no redraw is due, iff each operation
of the run that clears the screen finds a redraw due or a clear picture. -/
theorem upToDate_run_iff (he : e.WellFormed) (hshows : e.host.presenter.Shows (64, 32))
    (hp : e.UpToDate shown) (ops : List Operation) :
    (∀ pre, pre <+: ops → (e.run pre).2.UpToDate (e.picture shown pre)) ↔
      ∀ pre op post, ops = pre ++ op :: post → (e.run pre).2.Wipes op →
        (e.run pre).2.host.presenter.redrawPending = true ∨
          e.picture shown pre = Screen.standard := by
  induction ops generalizing e shown with
  | nil =>
    refine iff_of_true ?_ (by simp)
    intro pre hpre
    rw [List.prefix_nil.1 hpre]
    exact hp
  | cons op ops ih =>
    have hstep := upToDate_step_iff he hshows hp op
    have hnext := @ih _ (e.pictureAfter shown op) (step_wellFormed he op)
      (step_shows he hshows op)
    constructor
    · intro h pre op' post hcut
      have hfirst := h [op] (List.prefix_append [op] ops)
      cases pre with
      | nil =>
        obtain ⟨rfl, -⟩ := List.cons.inj hcut
        exact hstep.1 hfirst
      | cons _ pre =>
        obtain ⟨rfl, hrest⟩ := List.cons.inj hcut
        refine (hnext hfirst).1 ?_ pre op' post hrest
        intro pre hpre
        exact h (op :: pre) (List.cons_prefix_cons.2 ⟨rfl, hpre⟩)
    · intro h pre hpre
      have hfirst := hstep.2 (h [] op ops rfl)
      obtain rfl | ⟨rest, rfl, hrest⟩ := List.prefix_cons_iff.1 hpre
      · exact hp
      · refine (hnext hfirst).2 ?_ rest hrest
        intro pre op' post hcut
        exact h (op :: pre) op' post (congrArg (op :: ·) hcut)

/-- A sprite that is drawn and cleared before the refresh leaves no picture behind. -/
theorem upToDate_run_iff_cleared :
    let e : Emulator := { host := .still }
    let ops : List Operation := [.load [0xD0, 0x01, 0x00, 0xE0], .cycle, .cycle, .refresh]
    e.WellFormed ∧ e.host.presenter.Shows (64, 32) ∧ e.UpToDate Screen.standard ∧
      ∀ pre, pre <+: ops → (e.run pre).2.UpToDate (e.picture Screen.standard pre) := by
  intro e ops
  have he : e.WellFormed := ⟨Machine.wellFormed_booted, rfl⟩
  have hshows : e.host.presenter.Shows (64, 32) := Presenter.shows_headless _ _
  have hp : e.UpToDate Screen.standard := fun _ => rfl
  refine ⟨he, hshows, hp, (upToDate_run_iff he hshows hp ops).2 ?_⟩
  intro pre op post hcut hwipes
  obtain _ | ⟨_, _ | ⟨_, _ | ⟨_, _ | ⟨_, pre⟩⟩⟩⟩ := pre <;>
    simp only [ops, List.nil_append, List.cons_append, List.cons.injEq] at hcut
  · exact .inr rfl
  · obtain ⟨rfl, -⟩ := hcut
    exact .inr rfl
  · -- The screen is cleared while the redraw for the sprite is still due.
    obtain ⟨rfl, rfl, -⟩ := hcut
    left
    decide +kernel
  · obtain ⟨-, -, -, rfl, -⟩ := hcut
    exact hwipes.elim
  · simp at hcut

/-- No redraw is due and yet the picture is another than the screen: behind an instruction that
clears the screen, behind a program that is loaded, and behind a new machine. -/
theorem picture_stale :
    let e : Emulator := { host := .still }
    let ops : List Operation := [.load [0xD0, 0x01, 0x00, 0xE0], .cycle, .refresh]
    let after (op : Operation) : Emulator := (e.run (ops ++ [op])).2
    let picture (op : Operation) : Screen := e.picture Screen.standard (ops ++ [op])
    e.UpToDate Screen.standard ∧ ¬ (after .cycle).UpToDate (picture .cycle) ∧
      ¬ (after (.load [0x00, 0xE0])).UpToDate (picture (.load [0x00, 0xE0])) ∧
      ¬ (after .boot).UpToDate (picture .boot) := by
  intro e ops after picture
  -- The corner of the sprite is set in the picture, and clear on the screen.
  have hcorner : ∀ op ∈ [Operation.cycle, .load [0x00, 0xE0], .boot],
      (after op).host.presenter.redrawPending = false ∧ (picture op).cells.get 0 = 1 ∧
        (after op).machine.screen.cells.get 0 = 0 := by decide +kernel
  have hstale : ∀ op ∈ [Operation.cycle, .load [0x00, 0xE0], .boot],
      ¬ (after op).UpToDate (picture op) := by
    intro op hop h
    obtain ⟨hdue, hshown, hclear⟩ := hcorner op hop
    rw [h hdue, hclear] at hshown
    cases hshown
  exact ⟨fun _ => rfl, hstale _ (by simp), hstale _ (by simp), hstale _ (by simp)⟩

end Emulator

end Chip8
