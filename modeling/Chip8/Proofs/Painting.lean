import Chip8.Proofs.Operation

/-!
# Painting well-formed screens

The pixels of a well-formed machine are clear or set, so each of them has a colour. Whether a
picture is shown then lies with the window system alone.

* `Palette.frame`, `Palette.paint?_eq`: the colour bytes of a screen whose pixels are clear or set.
* `WindowSystem.Shows`, `Presenter.Shows`: pictures of a size are not refused.
* `Presenter.paint_eq`: a window shows these bytes.
* `Presenter.Refreshed`, `Presenter.refresh_refreshed`: what a refresh can come to.
* `Presenter.refresh_ok`, `Emulator.step_refresh_ok`: a refresh with the screen of a well-formed
  machine does not fail, if its pictures are not refused.
* `Emulator.step_shows`: no operation changes which pictures the window shows.
-/

namespace Chip8

/-! ## Colours -/

namespace Palette

/-- The colour of a pixel that is clear or set. -/
def shown (p : Palette) (cell : UInt8) : Colour := if cell = 0 then p.background else p.foreground

theorem colourOf?_eq (p : Palette) {cell : UInt8} (h : cell = 0 ∨ cell = 1) :
    p.colourOf? cell = some (p.shown cell) := by
  rcases h with rfl | rfl <;> rfl

theorem mapM_colourOf? (p : Palette) {cells : List UInt8} (h : ∀ c ∈ cells, c = 0 ∨ c = 1) :
    cells.mapM p.colourOf? = some (cells.map p.shown) := by
  induction cells with
  | nil => rfl
  | cons c cells ih =>
    rw [List.forall_mem_cons] at h
    rw [List.mapM_cons, p.colourOf?_eq h.1, ih h.2]
    rfl

end Palette

theorem Screen.Binary.of_mem {s : Screen} (h : s.Binary) {c : UInt8}
    (hc : c ∈ s.cells.cells.toList) : c = 0 ∨ c = 1 := by
  obtain ⟨a, ha, rfl⟩ := List.getElem_of_mem hc
  rw [Array.length_toList] at ha
  rw [Array.getElem_toList, ← s.cells.get_natCast ha]
  exact h a

/-- The colour bytes of a screen whose pixels are clear or set. -/
def Palette.frame (p : Palette) (s : Screen) : List UInt8 :=
  (s.cells.cells.toList.map p.shown).flatMap Colour.bytes

/-- Each pixel that is clear or set is shown in its colour. -/
theorem Palette.paint?_eq (p : Palette) {s : Screen} (h : s.Binary) :
    p.paint? s = some (p.frame s) := by
  rw [paint?, p.mapM_colourOf? fun _ => h.of_mem]
  rfl

/-- There are three bytes a pixel. -/
theorem Palette.length_frame (p : Palette) (s : Screen) :
    ((p.frame s).length : Int) = 3 * s.width * s.height := by
  have hlength : (p.frame s).length = 3 * s.cells.size := by
    simp [frame, List.length_flatMap, Colour.bytes, Memory.size, Function.comp_def,
      List.map_const', Nat.mul_comm]
  rw [hlength, Int.natCast_mul, s.size_cells, Int.mul_assoc]
  rfl

/-! ## Pictures that are shown -/

/-- In a window with these sides no picture of this size is refused that has three bytes a pixel. -/
def WindowSystem.Shows (system : WindowSystem) (size sides : Int × Int) : Prop :=
  ∀ frame : List UInt8, (frame.length : Int) = 3 * size.1 * size.2 →
    system.showPicture frame size sides = .ok ()

namespace Presenter

/-- No picture of this size is refused in the window, if there is one. -/
def Shows (p : Presenter) (size : Int × Int) : Prop :=
  ∀ w, p.window = some w → w.system.Shows size w.sides

theorem shows_headless (scale : Given Int) (size : Int × Int) : (headless scale).Shows size := by
  intro w hw
  cases hw

/-- A screen whose pixels have colours is shown in a window that shows its size. -/
theorem paint_eq {p : Presenter} {w : Window} (hwin : p.window = some w) {s : Screen}
    (hs : s.Binary) (hshows : w.system.Shows (s.width, s.height) w.sides) :
    p.paint s = .ok { p with window := some { w with frame := w.palette.frame s } } := by
  simp only [paint, hwin, w.palette.paint?_eq hs, hshows _ (w.palette.length_frame s)]

theorem paint_ok {p : Presenter} {s : Screen} (hp : p.Shows (s.width, s.height)) (hs : s.Binary) :
    ∃ p', p.paint s = .ok p' := by
  cases hwin : p.window with
  | none =>
    rw [paint, hwin]
    exact ⟨p, rfl⟩
  | some w => exact ⟨_, paint_eq hwin hs (hp w hwin)⟩

theorem refresh_of_not_pending {p : Presenter} (h : p.redrawPending = false) (s : Screen) :
    p.refresh s = (.ok false, p) := by
  rw [refresh, h]
  rfl

theorem refresh_of_pending {p p' : Presenter} {s : Screen} (h : p.redrawPending = true)
    (hpaint : { p with redrawPending := false }.paint s = .ok p') :
    p.refresh s = (.ok true, { p' with framesDrawn := p'.framesDrawn + 1 }) := by
  simp only [refresh, h, hpaint, ↓reduceIte]

/-- A refresh with the screen of a well-formed machine tells whether a redraw was due. -/
theorem refresh_ok {p : Presenter} (hp : p.Shows (64, 32)) {m : Machine} (h : m.WellFormed) :
    (p.refresh m.screen).1 = .ok p.redrawPending := by
  have hsize : (m.screen.width, m.screen.height) = ((64 : Int), (32 : Int)) := by
    rw [h.screen_size.1, h.screen_size.2]
  cases hdue : p.redrawPending with
  | false => rw [refresh_of_not_pending hdue]
  | true =>
    have hshows : { p with redrawPending := false }.Shows (m.screen.width, m.screen.height) :=
      hsize ▸ hp
    obtain ⟨p', hpaint⟩ := paint_ok hshows h.screen_bits
    rw [refresh_of_pending hdue hpaint]

/-- What a refresh can come to. -/
inductive Refreshed (p : Presenter) : Except Error Bool × Presenter → Prop where
  /-- No redraw is due. -/
  | idle (hdue : p.redrawPending = false) : Refreshed p (.ok false, p)
  /-- A redraw is due, and fails. -/
  | failed (hdue : p.redrawPending = true) (e : Error) :
    Refreshed p (.error e, { p with redrawPending := false })
  /-- A redraw is due, and changes the frame of the window, if there is one. -/
  | painted (hdue : p.redrawPending = true) (frame : List UInt8) :
    Refreshed p (.ok true, { p with
      redrawPending := false
      framesDrawn := p.framesDrawn + 1
      window := p.window.map fun w => { w with frame } })

theorem refresh_refreshed (p : Presenter) (s : Screen) : p.Refreshed (p.refresh s) := by
  cases hdue : p.redrawPending with
  | false =>
    rw [refresh_of_not_pending hdue]
    exact .idle hdue
  | true =>
    obtain ⟨scale, pending, framesDrawn, window⟩ := p
    cases hdue
    cases window with
    | none => exact .painted rfl []
    | some w =>
      simp only [refresh, paint, if_true]
      cases w.palette.paint? s with
      | none => exact .failed rfl _
      | some frame =>
        dsimp only
        cases w.system.showPicture frame (s.width, s.height) w.sides with
        | error => exact .failed rfl _
        | ok => exact .painted rfl frame

theorem Shows.refresh {p : Presenter} {size : Int × Int} (h : p.Shows size) (s : Screen) :
    (p.refresh s).2.Shows size := by
  have hr := p.refresh_refreshed s
  generalize p.refresh s = r at hr ⊢
  cases hr with
  | idle | failed => exact h
  | painted _ frame =>
    intro w' hw'
    obtain ⟨w, hw, rfl⟩ := Option.map_eq_some_iff.1 hw'
    exact h w hw

end Presenter

theorem Instr.touch_shows (i : Instr) {host : Host} {size : Int × Int}
    (h : host.presenter.Shows size) : (i.touch host).presenter.Shows size := by
  unfold touch
  split <;> exact h

namespace Emulator

variable {e : Emulator} {size : Int × Int}

theorem step_refresh_ok (he : e.machine.WellFormed) (hp : e.host.presenter.Shows (64, 32)) :
    (e.step .refresh).1 = .ok () := by
  simp only [step, refresh, Presenter.refresh_ok hp he]
  rfl

theorem cycle_shows (he : e.WellFormed) (h : e.host.presenter.Shows size) :
    e.cycle.2.host.presenter.Shows size := by
  cases hr : e.mode with
  | idle =>
    rw [cycle_idle hr, host_trace]
    exact h
  | running =>
    have hc := cycle_cycled he hr
    generalize e.cycle = r at hc ⊢
    cases hc with
    | undecoded => exact h
    | overflow i | underflow i =>
      rw [host_trace]
      exact h
    | done i => exact i.touch_shows h

theorem step_shows (he : e.WellFormed) (h : e.host.presenter.Shows size) (op : Operation) :
    (e.step op).2.host.presenter.Shows size := by
  cases op with
  | load program =>
    simp only [step, load]
    split
    · cases Machine.loaded program <;> exact h
    · exact h
  | cycle => exact cycle_shows he h
  | refresh => exact h.refresh _
  | boot | tick | idle | resume | hold => exact h

end Emulator

end Chip8
