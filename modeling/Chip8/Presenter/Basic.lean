import Chip8.Given
import Chip8.Presenter.Palette

/-!
# Presenters

A presenter shows the screen. It is asked for a redraw whenever a sprite is drawn, and paints at
the next refresh, however often it was asked. A headless presenter keeps count and shows nothing;
a windowed one has a title and paints in two colours. Its window is that of a window system, which
can refuse to open it, and can refuse to show a picture in it.

* `WindowSystem`: what a presenter asks of a window system.
* `Presenter.requestRedraw`, `Presenter.refresh`: the two halves of the protocol.
* `Presenter.headless`, `Presenter.openWindow`: the two kinds.
-/

namespace Chip8

/-- What a presenter asks of a window system. What is refused, and for what reason, is up to the
window system. Titles are plain text, of which none is refused. -/
structure WindowSystem where
  /-- Starts up, which opens the display. -/
  start : Except String Unit
  /-- Opens a window with a width and a height. -/
  openWindow : Int × Int → Except String Unit
  /-- Shows the colour bytes of a picture with a width and a height, stretched to the width and the
  height of the window. -/
  showPicture : List UInt8 → Int × Int → Int × Int → Except String Unit

/-- What a windowed presenter shows. -/
structure Window where
  /-- The window system. -/
  system : WindowSystem
  /-- The width and the height of the window. -/
  sides : Int × Int
  /-- The title of the window. -/
  title : String
  /-- The colours of the pixels. -/
  palette : Palette
  /-- The colour bytes of the last frame painted. -/
  frame : List UInt8 := []

/-- Shows the screen when a redraw is due. -/
structure Presenter where
  /-- The width of the picture in host pixels, if it has one. -/
  scale : Option Int
  /-- A redraw was asked for since the last refresh. -/
  redrawPending : Bool := false
  /-- How many frames were painted. -/
  framesDrawn : Nat := 0
  /-- The window, if there is one. -/
  window : Option Window := none

namespace Presenter

/-- Why a refresh fails. -/
inductive Error where
  /-- A cell of the screen holds neither 0 nor 1. -/
  | noSuchColour
  /-- The window system does not show the picture. -/
  | refused (reason : String)
deriving DecidableEq, Repr

/-- The text of an error. -/
def Error.message : Error → String
  | .noSuchColour => "A cell of the screen has no colour"
  | .refused reason => reason

/-- The name of the application, which is the title of a new window. -/
def applicationName : String := "MonoChip Virtual Machine"

/-- The width of a window if nothing is given. -/
def standardScale : Int := 512

/-- A presenter that shows nothing. -/
def headless (scale : Given Int) : Presenter where
  scale := scale.resolve 1

/-- The sides of a window of the given width, which is half as high. -/
def sidesOf (scale : Int) : Int × Int := (scale, scale.fdiv 2)

/-- A presenter with a window. -/
def windowed (system : WindowSystem) (scale : Int) (palette : Palette) : Presenter where
  scale := some scale
  window := some { system, sides := sidesOf scale, title := applicationName, palette }

/-- Why a window cannot be opened. -/
inductive WindowError where
  /-- Its width is left blank. -/
  | blankScale
  /-- The window system does not start up, or opens no window of this width. -/
  | refused (reason : String)
  /-- Its palette is left blank. -/
  | blankPalette
  /-- Its palette cannot be read. -/
  | palette (error : Palette.Error)
deriving DecidableEq, Repr

/-- The text of an error. -/
def WindowError.message : WindowError → String
  | .blankScale => "The width of the window is missing"
  | .refused reason => reason
  | .blankPalette => "The palette is missing"
  | .palette e => e.message

/-- Settles the width of a window and opens it. -/
def openScaled (system : WindowSystem) (scale : Given Int) : Except WindowError Int :=
  match scale.resolve standardScale with
  | none => .error .blankScale
  | some scale =>
    match system.openWindow (sidesOf scale) with
    | .error reason => .error (.refused reason)
    | .ok () => .ok scale

/-- Settles the palette of a window. -/
def readPalette (palette : Given String) : Except WindowError Palette :=
  match palette.resolve Palette.standardText with
  | none => .error .blankPalette
  | some text => (Palette.parse text).mapError .palette

/-- A presenter with a window of a system that has started up. The window is open before its palette
is settled. -/
def openWindow (system : WindowSystem) (scale : Given Int) (palette : Given String) :
    Except WindowError Presenter := do
  return windowed system (← openScaled system scale) (← readPalette palette)

/-- The width and height of the window, if there is one. -/
def windowSize? (p : Presenter) : Option (Int × Int) := p.window.map (·.sides)

/-- Asks for a redraw at the next refresh. -/
def requestRedraw (p : Presenter) : Presenter := { p with redrawPending := true }

/-- Paints the screen, or nothing for a presenter without a window. The colours are looked up before
the picture is shown. -/
def paint (p : Presenter) (screen : Screen) : Except Error Presenter :=
  match p.window with
  | none => .ok p
  | some w =>
    match w.palette.paint? screen with
    | none => .error .noSuchColour
    | some frame =>
      match w.system.showPicture frame (screen.width, screen.height) w.sides with
      | .error reason => .error (.refused reason)
      | .ok () => .ok { p with window := some { w with frame } }

/-- Paints the screen if a redraw is due, and tells whether it did. A redraw that fails is no longer
due. -/
def refresh (p : Presenter) (screen : Screen) : Except Error Bool × Presenter :=
  if p.redrawPending then
    let p := { p with redrawPending := false }
    match p.paint screen with
    | .error e => (.error e, p)
    | .ok p => (.ok true, { p with framesDrawn := p.framesDrawn + 1 })
  else (.ok false, p)

/-- Changes the title of the window. -/
def setTitle (p : Presenter) (title : String) : Presenter :=
  { p with window := p.window.map fun w => { w with title } }

/-- The title of the window. -/
def title? (p : Presenter) : Option String := p.window.map (·.title)

end Presenter

end Chip8
