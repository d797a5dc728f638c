import Chip8.Launch
import Chip8.Proofs.Loading

/-!
# The display behind a launch

A launch opens the display before it opens its window, and closes it behind the run of its session.
Between the two its window, its key map, its program and its speed can each turn out to be wrong. No
such failure closes the display, so that it is left open just then. What the window system refuses
is its own affair: the statements hold of any.

* `Launching.Gives`: what holds of the outcome of a step.
* `Reaches`, `Wrong`, `Flawed`: what a launch needs until its display is open, and from there on.
* `Prepared`, `prepared_prepare`: what preparation comes to.
* `launch_displayOpen_iff`: when a launch leaves the display open.
* `launch_palette_displayOpen`: a palette that cannot be read leaves it open.
-/

namespace Chip8

open CommandLine

/-! ## Steps of a launch -/

namespace Launching

variable {α β : Type} {x : Launching α} {f : α → Launching β} {l l' : Launch}

/-- What holds of the outcome of a step behind what was done before it. -/
def Gives (x : Launching α) (l : Launch) (P : Except LaunchError α → Launch → Prop) : Prop :=
  P (x.run.run l).1 (x.run.run l).2

variable {P : Except LaunchError β → Launch → Prop}

/-- Where a step goes through, the next one follows. -/
theorem Gives.of_ok {a : α} (hx : x.run.run l = (.ok a, l')) (h : (f a).Gives l' P) :
    (x >>= f).Gives l P := by
  rwa [Gives, ExceptT.run_bind, StateT.run_bind, hx]

/-- Where a step fails, nothing follows. -/
theorem Gives.of_error {e : LaunchError} (hx : x.run.run l = (.error e, l')) (h : P (.error e) l') :
    (x >>= f).Gives l P := by
  rwa [Gives, ExceptT.run_bind, StateT.run_bind, hx]

end Launching

theorem orFail_some {α : Type} (a : α) (error : LaunchError) : orFail (some a) error = pure a := rfl

variable {s : Settings} {w : Surroundings}

/-! ## What a launch needs -/

/-- If a window is wanted, there is a window system, and it starts up. -/
def Starts (s : Settings) (w : Surroundings) : Prop :=
  s.wantsWindow = true → ∃ system, w.windows = some system ∧ system.start = .ok ()

/-- A launch gets its display open if it wants one: the log has the level that is asked for, a
window system that is wanted starts up, and the program can be read. -/
structure Reaches (s : Settings) (w : Surroundings) (program : List UInt8) : Prop where
  /-- The log has such a level. -/
  level : (LogLevel.threshold? s.levelName).isSome = true
  /-- A window system that is wanted starts up. -/
  starts : Starts s w
  /-- The file that is named holds the program. -/
  file : ∃ name, s.filename = some name ∧ w.read name = .ok program

/-- What can be wrong with a launch from its display up to its session. -/
inductive Wrong (s : Settings) (w : Surroundings) (program : List UInt8) : LaunchError → Prop where
  /-- A window is wanted that cannot be opened. -/
  | window {system : WindowSystem} {e : Presenter.WindowError} (hwants : s.wantsWindow = true)
    (hsystem : w.windows = some system)
    (hwindow : Presenter.openWindow system s.scale s.palette = .error e) :
    Wrong s w program (.window e)
  /-- There is no key map. -/
  | noKeymap (hnone : s.keymap.value? = none) : Wrong s w program .noKeymap
  /-- The key map cannot be read. -/
  | keymap {text : String} {e : Keymap.Error} (htext : s.keymap.value? = some text)
    (hparse : Keymap.parse text = .error e) : Wrong s w program (.keymap e)
  /-- The program is too long. -/
  | load (hlong : 3584 < program.length) : Wrong s w program (.load (.tooLong program.length))
  /-- The speed is left blank. -/
  | blankSpeed (hblank : s.speed? = none) : Wrong s w program .blankSpeed
  /-- The speed has more digits than are ever written. -/
  | unwrittenSpeed {speed : Int} (hspeed : s.speed? = some speed) (hlong : 10 ^ 4300 ≤ speed) :
    Wrong s w program .unwrittenSpeed

theorem Reaches.unique {program program' : List UInt8} (h : Reaches s w program)
    (h' : Reaches s w program') : program = program' := by
  obtain ⟨name, hname, hread⟩ := h.file
  obtain ⟨name', hname', hread'⟩ := h'.file
  cases hname.symm.trans hname'
  exact Except.ok.inj (hread.symm.trans hread')

/-- The words for a speed are wanting iff it has more digits than are ever written. -/
theorem speedText?_eq_none_iff {speed : Int} : speedText? speed = none ↔ 10 ^ 4300 ≤ speed := by
  have hpos : (0 : Int) < 10 ^ 4300 := Int.pow_pos (by decide)
  have hcast : ((10 ^ Numeral.maxDigits : Nat) : Int) = 10 ^ 4300 := Int.natCast_pow 10 _
  rw [speedText?, Numeral.written?, Nat.pow_eq]
  split
  · exact iff_of_false nofun (by omega)
  · split
    · exact iff_of_false nofun (by omega)
    · exact iff_of_true rfl (by omega)

theorem not_wrong {program : List UInt8} {text : String} {speed : Int}
    (hwindow : s.wantsWindow = true → ∀ system, w.windows = some system →
      ∀ e, Presenter.openWindow system s.scale s.palette ≠ .error e)
    (htext : s.keymap.value? = some text) (hparse : ∀ e, Keymap.parse text ≠ .error e)
    (hshort : program.length ≤ 3584) (hspeed : s.speed? = some speed)
    (hwritten : speedText? speed ≠ none) (e : LaunchError) : ¬ Wrong s w program e := by
  rintro (⟨hwants, hsystem, herror⟩ | hnone | ⟨htext', herror⟩ | hlong | hblank | ⟨hspeed', hlong⟩)
  · exact hwindow hwants _ hsystem _ herror
  · cases hnone.symm.trans htext
  · cases htext.symm.trans htext'
    exact hparse _ herror
  · exact absurd hshort (Nat.not_le.2 hlong)
  · cases hblank.symm.trans hspeed
  · cases hspeed.symm.trans hspeed'
    exact hwritten (speedText?_eq_none_iff.2 hlong)

/-- Something is wrong with a launch that gets its display open if it wants one. -/
def Flawed (s : Settings) (w : Surroundings) (e : LaunchError) : Prop :=
  ∃ program, Reaches s w program ∧ Wrong s w program e

theorem not_flawed_of_noLevel (hlevel : LogLevel.threshold? s.levelName = none)
    (e : LaunchError) : ¬ Flawed s w e := by
  rintro ⟨program, hreaches, -⟩
  have hsome := hreaches.level
  rw [hlevel] at hsome
  cases hsome

theorem not_flawed_of_not_starts (hstarts : ¬ Starts s w) (e : LaunchError) :
    ¬ Flawed s w e := by
  rintro ⟨program, hreaches, -⟩
  exact hstarts hreaches.starts

theorem not_flawed_of_noProgram
    (hnone : ∀ program name, s.filename = some name → w.read name ≠ .ok program)
    (e : LaunchError) : ¬ Flawed s w e := by
  rintro ⟨program, hreaches, -⟩
  obtain ⟨name, hname, hread⟩ := hreaches.file
  exact hnone program name hname hread

/-- A launch has one program, so that it is enough if nothing is wrong with that. -/
theorem Reaches.not_flawed {program : List UInt8} (hreaches : Reaches s w program)
    (hright : ∀ e, ¬ Wrong s w program e) (e : LaunchError) : ¬ Flawed s w e := by
  rintro ⟨program', hreaches', hwrong⟩
  rw [← hreaches.unique hreaches'] at hwrong
  exact hright e hwrong

/-! ## The steps up to the session -/

namespace Launching

variable {α : Type} {l : Launch} {P : Except LaunchError α → Launch → Prop}

theorem Gives.program {f : List UInt8 → Launching α}
    (hok : ∀ program, (∃ name, s.filename = some name ∧ w.read name = .ok program) →
      (f program).Gives l P)
    (herror : ∀ e, (∀ program name, s.filename = some name → w.read name ≠ .ok program) →
      P (.error e) l) :
    (prepareProgram s w >>= f).Gives l P := by
  unfold prepareProgram
  cases hname : s.filename with
  | none => exact .of_error rfl (herror _ (by rw [hname]; nofun))
  | some name =>
    rw [orFail_some, pure_bind]
    cases hread : w.read name with
    | error e =>
      refine .of_error rfl (herror _ ?_)
      rintro program _ hname' hok
      cases hname.symm.trans hname'
      cases hread.symm.trans hok
    | ok program => exact .of_ok rfl (hok program ⟨name, hname, hread⟩)

/-- The window system that a launch goes on with. -/
inductive Provided (s : Settings) (w : Surroundings) : Option WindowSystem → Prop where
  /-- No window is wanted. -/
  | headless (hwants : s.wantsWindow = false) : Provided s w none
  /-- One is wanted. -/
  | windowed {system : WindowSystem} (hwants : s.wantsWindow = true)
    (hsystem : w.windows = some system) : Provided s w (some system)

theorem Gives.windows {f : Option WindowSystem → Launching α}
    (hok : ∀ windows, Provided s w windows → (f windows).Gives l P)
    (herror : ∀ e, ¬ Starts s w → P (.error e) l) : (prepareWindows s w >>= f).Gives l P := by
  unfold prepareWindows
  by_cases hwants : s.wantsWindow = true
  · rw [if_pos hwants]
    cases hsystem : w.windows with
    | none =>
      refine .of_error rfl (herror _ fun hstarts => ?_)
      obtain ⟨system, hsome, -⟩ := hstarts hwants
      cases hsystem.symm.trans hsome
    | some system => exact .of_ok rfl (hok _ (.windowed hwants hsystem))
  · rw [if_neg hwants]
    exact .of_ok rfl (hok _ (.headless (Bool.eq_false_iff.2 hwants)))

section

variable {system : WindowSystem}

theorem preparePresenter_refused {reason : String} (hstart : system.start = .error reason) :
    (preparePresenter s (some system)).run.run l = (.error (.window (.refused reason)), l) := by
  simp only [preparePresenter, hstart]
  rfl

theorem preparePresenter_error {e : Presenter.WindowError} (hstart : system.start = .ok ())
    (hwindow : Presenter.openWindow system s.scale s.palette = .error e) :
    (preparePresenter s (some system)).run.run l = (.error (.window e), l.openDisplay) := by
  simp only [preparePresenter, hstart, hwindow]
  rfl

theorem preparePresenter_ok {presenter : Presenter} (hstart : system.start = .ok ())
    (hwindow : Presenter.openWindow system s.scale s.palette = .ok presenter) :
    (preparePresenter s (some system)).run.run l = (.ok presenter, l.openDisplay) := by
  simp only [preparePresenter, hstart, hwindow]
  rfl

end

/-- The display stays closed if the window system does not start up. Behind the presenter it is open
iff a window is wanted, whether or not there is one. -/
theorem Gives.presenter {windows : Option WindowSystem} {f : Presenter → Launching α}
    (hwindows : Provided s w windows) (hclosed : l.displayOpen = false)
    (hok : ∀ presenter l', l'.displayOpen = s.wantsWindow → Starts s w →
      (s.wantsWindow = true → ∀ system, w.windows = some system →
        ∀ e, Presenter.openWindow system s.scale s.palette ≠ .error e) →
      (f presenter).Gives l' P)
    (hrefused : ∀ e, ¬ Starts s w → P (.error e) l)
    (herror : ∀ e l', l'.displayOpen = s.wantsWindow → Starts s w →
      (∀ program, Wrong s w program e) → P (.error e) l') :
    (preparePresenter s windows >>= f).Gives l P := by
  cases hwindows with
  | headless hwants =>
    have hnot : ¬ s.wantsWindow = true := Bool.eq_false_iff.1 hwants
    exact .of_ok rfl (hok _ _ (hclosed.trans hwants.symm) (absurd · hnot) (absurd · hnot))
  | @windowed system hwants hsystem =>
    cases hstart : system.start with
    | error reason =>
      refine .of_error (preparePresenter_refused hstart) (hrefused _ fun hstarts => ?_)
      obtain ⟨system', hsome, hok'⟩ := hstarts hwants
      cases hsystem.symm.trans hsome
      cases hstart.symm.trans hok'
    | ok =>
      have hstarts : Starts s w := fun _ => ⟨system, hsystem, hstart⟩
      cases hwindow : Presenter.openWindow system s.scale s.palette with
      | error e =>
        exact .of_error (preparePresenter_error hstart hwindow)
          (herror _ _ hwants.symm hstarts fun _ => .window hwants hsystem hwindow)
      | ok presenter =>
        refine .of_ok (preparePresenter_ok hstart hwindow)
          (hok presenter _ hwants.symm hstarts ?_)
        rintro - system' hsome e herror'
        cases hsystem.symm.trans hsome
        cases hwindow.symm.trans herror'

theorem Gives.keypad {f : Keypad → Launching α}
    (hok : ∀ keypad text, s.keymap.value? = some text →
      (∀ e, Keymap.parse text ≠ .error e) → (f keypad).Gives l P)
    (herror : ∀ e, (∀ program, Wrong s w program e) → P (.error e) l) :
    (prepareKeypad s >>= f).Gives l P := by
  unfold prepareKeypad
  cases htext : s.keymap.value? with
  | none => exact .of_error rfl (herror _ fun _ => .noKeymap htext)
  | some text =>
    rw [orFail_some, pure_bind]
    cases hparse : Keymap.parse text with
    | error e => exact .of_error rfl (herror _ fun _ => .keymap htext hparse)
    | ok keymap =>
      refine .of_ok rfl (hok _ text htext ?_)
      rw [hparse]
      exact fun _ => nofun

end Launching

/-! ## What preparation comes to -/

/-- What preparation comes to. -/
inductive Prepared (s : Settings) (w : Surroundings) :
    Except LaunchError (Session × Pace Float) → Launch → Prop where
  /-- It stops before the display is opened, or when it is closed again. -/
  | closed {e : LaunchError} {l : Launch} (hsound : ∀ e, ¬ Flawed s w e)
    (hclosed : l.displayOpen = false) : Prepared s w (.error e) l
  /-- It stops at something wrong. -/
  | flawed {e : LaunchError} {l : Launch} (hflawed : Flawed s w e)
    (hdisplay : l.displayOpen = s.wantsWindow) : Prepared s w (.error e) l
  /-- It makes a session. -/
  | ready {session : Session} {pace : Pace Float} {l : Launch} (hsound : ∀ e, ¬ Flawed s w e) :
    Prepared s w (.ok (session, pace)) l

/-- A preparation that stops behind the opening of the display leaves it as the settings want it,
except that a speed beyond all clocks closes it. -/
theorem prepared_prepare (s : Settings) (w : Surroundings) :
    (prepare s w).Gives {} (Prepared s w) := by
  unfold prepare
  cases hlevel : LogLevel.threshold? s.levelName with
  | none => exact .of_error rfl (.closed (not_flawed_of_noLevel hlevel) rfl)
  | some threshold =>
    refine .of_ok rfl (.of_ok rfl (.windows (fun windows hwindows => ?_) fun e hstarts =>
      .closed (not_flawed_of_not_starts hstarts) rfl))
    refine .of_ok rfl (.program (fun program hfile => ?_) fun e hnone =>
      .closed (not_flawed_of_noProgram hnone) rfl)
    have hreaches (hstarts : Starts s w) : Reaches s w program := {
      level := by rw [hlevel]; rfl
      starts := hstarts
      file := hfile }
    refine .presenter hwindows rfl (fun presenter l hdisplay hstarts hwindow => ?_)
      (fun e hstarts => .closed (not_flawed_of_not_starts hstarts) rfl)
      fun e l hdisplay hstarts hwrong =>
        .flawed ⟨program, hreaches hstarts, hwrong program⟩ hdisplay
    have hreaches := hreaches hstarts
    -- No step from here on changes the display before the session is made.
    refine .keypad (fun keypad text htext hparse => .of_ok rfl ?_) fun e hwrong =>
      .flawed ⟨program, hreaches, hwrong program⟩ hdisplay
    have hnew (host : Host) (live : Bool) (log : Array LogEntry) :
        ({ host, live, log } : Emulator).machine.WellFormed := Machine.wellFormed_booted
    obtain hlong | hshort := Nat.lt_or_ge 3584 program.length
    · simp only [Emulator.load_refused (hnew ..) hlong]
      exact .of_ok rfl (.of_error rfl (.flawed ⟨program, hreaches, .load hlong⟩ hdisplay))
    simp only [Emulator.load_ok (hnew ..) hshort]
    refine .of_ok rfl ?_
    cases hspeed : s.speed? with
    | none => exact .of_error rfl (.flawed ⟨program, hreaches, .blankSpeed hspeed⟩ hdisplay)
    | some speed =>
      refine .of_ok rfl ?_
      cases htextual : speedText? speed with
      | none =>
        have hlong := speedText?_eq_none_iff.1 htextual
        exact .of_error rfl
          (.flawed ⟨program, hreaches, .unwrittenSpeed hspeed hlong⟩ hdisplay)
      | some words =>
        have hwritten : speedText? speed ≠ none := by
          rw [htextual]
          nofun
        have hsound := hreaches.not_flawed
          (not_wrong hwindow htext hparse hshort hspeed hwritten)
        refine .of_ok rfl (.of_ok rfl ?_)
        cases Pace.atSpeed? speed with
        | none => exact .closed hsound rfl
        | some pace => exact .ready hsound

/-- A launch leaves the display open iff it wants a window, gets its display open, and something is
wrong from there on. That is then why it fails, so that no launch that comes to a session leaves the
display open, however the session ends. -/
theorem launch_displayOpen_iff (s : Settings) (w : Surroundings) (readings : List Float) :
    let o := launch s w readings
    (o.launch.displayOpen = true ↔ s.wantsWindow = true ∧ ∃ e, Flawed s w e) ∧
      (o.launch.displayOpen = true → ∃ e, o.result = .error e ∧ Flawed s w e) := by
  have hprepared := prepared_prepare s w
  unfold Launching.Gives at hprepared
  unfold launch
  generalize (prepare s w).run.run {} = r at hprepared ⊢
  obtain ⟨result, l⟩ := r
  intro o
  cases hprepared with
  | closed hsound hclosed =>
    have ho : o.launch.displayOpen = false := hclosed
    rw [ho]
    exact ⟨⟨nofun, fun ⟨_, e, hflawed⟩ => absurd hflawed (hsound e)⟩, nofun⟩
  | flawed hflawed hdisplay =>
    have ho : o.launch.displayOpen = s.wantsWindow := hdisplay
    rw [ho]
    exact ⟨⟨fun hwants => ⟨hwants, _, hflawed⟩, And.left⟩, fun _ => ⟨_, rfl, hflawed⟩⟩
  | ready hsound =>
    have ho : o.launch.displayOpen = false := rfl
    rw [ho]
    exact ⟨⟨nofun, fun ⟨_, e, hflawed⟩ => absurd hflawed (hsound e)⟩, nofun⟩

/-- A launch with a palette of which a colour is too short fails, and the display stays open. -/
theorem launch_palette_displayOpen :
    let s : Settings := {
      filename := some "rom.ch8"
      renderer := .value "pygame"
      palette := .value "000000,12345" }
    let w : Surroundings := {
      windows := some {
        start := .ok ()
        openWindow := fun _ => .ok ()
        showPicture := fun _ _ _ => .ok () }
      file := fun _ => .ok [0x60, 0x05, 0xA0, 0x00, 0xD0, 0x15, 0x81, 0x24, 0x01, 0x23]
      random := .cycle #[0] }
    let o := launch s w []
    o.result.isOk = false ∧ o.launch.displayOpen = true := by
  decide +kernel

end Chip8
