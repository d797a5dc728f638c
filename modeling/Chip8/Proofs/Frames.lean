import Chip8.Proofs.Painting
import Chip8.Proofs.Palette
import Chip8.Proofs.Parity

/-!
# Frames

A window shows a screen as three bytes a pixel, row by row. A presenter paints at a refresh iff it
was asked since the last one; and then each pixel of the screen can be told from the frame, unless
both colours are the same.

* `BigEndian`: the bytes of a number.
* `Palette.frame_at`: where a pixel is in the frame of a screen.
* `Display`, `Display.Act`, `Display.run`: a presenter beside a screen, and what is done to them.
* `Display.Due`: a redraw was asked for since the last refresh.
* `Display.Keeps`, `Display.Keeps.act`, `Display.Keeps.run`: what one act keeps, and any number.
* `Display.refresh_frame`: what a refresh comes to behind any acts.
-/

namespace Chip8

/-! ## Frames -/

/-- Three bytes make up a number, the most significant one first. -/
def BigEndian (bs : List UInt8) (n : Nat) : Prop :=
  bs.length = 3 ∧ Nat.ofDigits 256 (bs.map UInt8.toNat).reverse = n

theorem Colour.bigEndian_bytes (c : Colour) : BigEndian c.bytes c.value := by
  refine ⟨rfl, ?_⟩
  have hdigits : (c.bytes.map UInt8.toNat).reverse = [c.blue.toNat, c.green.toNat, c.red.toNat] :=
    rfl
  rw [hdigits, Nat.ofDigits_cons, Nat.ofDigits_cons, Nat.ofDigits_singleton, value]
  omega

theorem BigEndian.unique {bs : List UInt8} {m n : Nat} (hm : BigEndian bs m)
    (hn : BigEndian bs n) : m = n := hm.2.symm.trans hn.2

/-- Three bytes tell a pixel: they make up the background colour if it is clear, and the foreground
colour if it is set. -/
def Screen.Tells (s : Screen) (background foreground : Nat) (x y : Int) (bs : List UInt8) : Prop :=
  s.pixel x y = .ok 0 ∧ BigEndian bs background ∨ s.pixel x y = .ok 1 ∧ BigEndian bs foreground

/-- Bytes that tell of two pixels tell that they are alike, unless the colours are. -/
theorem Screen.Tells.pixel_eq {s t : Screen} {background foreground : Nat}
    (hne : background ≠ foreground) {x y : Int} {bs : List UInt8}
    (hs : s.Tells background foreground x y bs) (ht : t.Tells background foreground x y bs) :
    s.pixel x y = t.pixel x y := by
  obtain ⟨hs, hsb⟩ | ⟨hs, hsf⟩ := hs <;> obtain ⟨ht, htb⟩ | ⟨ht, htf⟩ := ht
  · rw [hs, ht]
  · exact absurd (hsb.unique htf) hne
  · exact absurd (htb.unique hsf) hne
  · rw [hs, ht]

namespace Palette

variable (p : Palette) {s : Screen}

/-- Colours in a row have three bytes each. -/
theorem take_drop_bytes (colours : List Colour) {i : Nat} (hi : i < colours.length) :
    ((colours.flatMap Colour.bytes).drop (3 * i)).take 3 = colours[i].bytes := by
  induction colours generalizing i with
  | nil => exact absurd hi (Nat.not_lt_zero i)
  | cons c colours ih =>
    cases i with
    | zero => rfl
    | succ i => exact ih (Nat.lt_of_succ_lt_succ hi)

/-- The bytes of a cell stand at three times its address. -/
theorem frame_at {a : Int} (ha : s.cells.InRange a) :
    ((p.frame s).drop (3 * a).toNat).take 3 = (p.shown (s.cells.get a)).bytes := by
  obtain ⟨ha0, ha⟩ := ha
  obtain ⟨i, rfl⟩ := Int.eq_ofNat_of_zero_le ha0
  have hi : i < s.cells.cells.size := Int.ofNat_lt.1 ha
  have hplace : (3 * (i : Int)).toNat = 3 * i := by omega
  rw [hplace, frame, take_drop_bytes _ (by simpa using hi), s.cells.get_natCast hi,
    List.getElem_map, Array.getElem_toList]

theorem tells_frame (hs : s.HasPixels) (hb : s.Binary) {x y : Int} (hx0 : 0 ≤ x) (hx : x < s.width)
    (hy0 : 0 ≤ y) (hy : y < s.height) :
    s.Tells p.background.value p.foreground.value x y
      (((p.frame s).drop (3 * (y * s.width + x)).toNat).take 3) := by
  have hbytes := p.frame_at (Screen.wrapped_inRange hs x y)
  rw [Screen.wrapped_of_mem hs hx0 hx hy0 hy] at hbytes
  have hpixel := Screen.pixel_eq_cell hs hx0 hx hy0 hy
  rw [Screen.cell, Screen.wrapped_of_mem hs hx0 hx hy0 hy] at hpixel
  obtain h0 | h1 := hb (y * s.width + x)
  · rw [h0] at hbytes hpixel
    exact .inl ⟨hpixel, hbytes ▸ p.background.bigEndian_bytes⟩
  · rw [h1] at hbytes hpixel
    exact .inr ⟨hpixel, hbytes ▸ p.foreground.bigEndian_bytes⟩

end Palette

/-! ## What is done to a presenter and its screen -/

/-- A presenter beside the screen that it shows. -/
structure Display where
  /-- The presenter. -/
  presenter : Presenter
  /-- The screen. -/
  screen : Screen

namespace Display

/-- Something done to a presenter or its screen. -/
inductive Act where
  /-- The screen is changed. -/
  | change (c : Screen.Change)
  /-- The presenter is asked for a redraw. -/
  | request
  /-- The presenter refreshes. -/
  | refresh
deriving DecidableEq

/-- Carries out one act. -/
def act (d : Display) : Act → Display
  | .change c => { d with screen := (d.screen.change c).2 }
  | .request => { d with presenter := d.presenter.requestRedraw }
  | .refresh => { d with presenter := (d.presenter.refresh d.screen).2 }

/-- Carries out acts in order. -/
def run (d : Display) (as : List Act) : Display := as.foldl act d

/-- A redraw was asked for since the last refresh. -/
def Due (as : List Act) : Prop := .request ∈ as.reverse.takeWhile (· ≠ .refresh)

instance (as : List Act) : Decidable (Due as) :=
  inferInstanceAs (Decidable (_ ∈ _))

theorem due_concat (as : List Act) (a : Act) :
    Due (as ++ [a]) ↔ a = .request ∨ a ≠ .refresh ∧ Due as := by
  unfold Due
  rw [List.reverse_concat]
  cases a with
  | refresh => simp
  | request => simp
  | change c => simp

/-- What acts keep of a display: the size of the screen, that its pixels are clear or set, and a
window of the same colours that shows pictures of this size. A redraw is pending iff one is due. -/
structure Keeps (w h : Int) (colours : Palette) (as : List Act) (d : Display) : Prop where
  /-- The number of columns. -/
  width : d.screen.width = w
  /-- The number of rows. -/
  height : d.screen.height = h
  /-- The pixels are clear or set. -/
  binary : d.screen.Binary
  /-- The colours of the window. -/
  colours : d.presenter.window.map (·.palette) = some colours
  /-- The window shows pictures of the size of the screen. -/
  shows : d.presenter.Shows (w, h)
  /-- A redraw is pending iff one is due. -/
  pending : d.presenter.redrawPending = decide (Due as)

variable {w h : Int} {colours : Palette} {as : List Act} {d : Display}

theorem Keeps.hasPixels (hd : Keeps w h colours as d) (hw : 1 ≤ w) (hh : 1 ≤ h) :
    d.screen.HasPixels :=
  ⟨by rw [hd.width]; omega, by rw [hd.height]; omega⟩

/-- A change is not refused. -/
theorem Keeps.change (hd : Keeps w h colours as d) (hw : 1 ≤ w) (hh : 1 ≤ h) (c : Screen.Change) :
    (∃ told, (d.screen.change c).1 = .ok told) ∧
      Keeps w h colours (as ++ [.change c]) (d.act (.change c)) := by
  have hpending : d.presenter.redrawPending = decide (Due (as ++ [.change c])) := by
    rw [hd.pending]
    simp [due_concat]
  cases c with
  | clear =>
    exact ⟨⟨_, rfl⟩, hd.width, hd.height, Screen.binary_clear _, hd.colours, hd.shows, hpending⟩
  | flip x y =>
    have hflip : d.screen.change (.flip x y) =
        (.ok (some (d.screen.cell x y != 0)), d.screen.flip x y) := by
      rw [Screen.change, Screen.xorPixel_eq (hd.hasPixels hw hh)]
    rw [act, hflip]
    exact ⟨⟨_, rfl⟩, hd.width, hd.height, hd.binary.flip x y, hd.colours, hd.shows, hpending⟩

/-- A refresh paints iff a redraw is due, and then the window holds the frame of the screen. -/
theorem Keeps.refresh (hd : Keeps w h colours as d) :
    (d.presenter.refresh d.screen).1 = .ok (decide (Due as)) ∧
    (¬ Due as → d.act .refresh = d) ∧
    (Due as → (d.act .refresh).presenter.framesDrawn = d.presenter.framesDrawn + 1 ∧
      (d.act .refresh).presenter.window.map (·.frame) = some (colours.frame d.screen)) ∧
    Keeps w h colours (as ++ [.refresh]) (d.act .refresh) := by
  obtain ⟨win, hwin, rfl⟩ := Option.map_eq_some_iff.1 hd.colours
  have hnext : ¬ Due (as ++ [.refresh]) := by simp [due_concat]
  have hshows : (d.act .refresh).presenter.Shows (w, h) := hd.shows.refresh d.screen
  by_cases hdue : Due as
  · have hsize : win.system.Shows (d.screen.width, d.screen.height) win.sides := by
      rw [hd.width, hd.height]
      exact hd.shows win hwin
    have hpaint := Presenter.paint_eq (p := { d.presenter with redrawPending := false }) hwin
      hd.binary hsize
    have hpending : d.presenter.redrawPending = true := hd.pending.trans (decide_eq_true hdue)
    rw [act, Presenter.refresh_of_pending hpending hpaint] at hshows
    rw [act, Presenter.refresh_of_pending hpending hpaint, decide_eq_true hdue]
    exact ⟨rfl, fun h => absurd hdue h, fun _ => ⟨rfl, rfl⟩, hd.width, hd.height, hd.binary, rfl,
      hshows, (decide_eq_false hnext).symm⟩
  · have hpending : d.presenter.redrawPending = false := hd.pending.trans (decide_eq_false hdue)
    rw [act, Presenter.refresh_of_not_pending hpending, decide_eq_false hdue]
    exact ⟨rfl, fun _ => rfl, fun h => absurd h hdue, hd.width, hd.height, hd.binary, hd.colours,
      hd.shows, hpending.trans (decide_eq_false hnext).symm⟩

theorem Keeps.request (hd : Keeps w h colours as d) :
    Keeps w h colours (as ++ [.request]) (d.act .request) :=
  { hd with pending := (decide_eq_true ((due_concat as .request).2 (.inl rfl))).symm }

/-- One act keeps it. -/
theorem Keeps.act (hd : Keeps w h colours as d) (hw : 1 ≤ w) (hh : 1 ≤ h) (a : Act) :
    Keeps w h colours (as ++ [a]) (d.act a) := by
  cases a with
  | change c => exact (hd.change hw hh c).2
  | request => exact hd.request
  | refresh => exact hd.refresh.2.2.2

/-- Any number of acts keep it. -/
theorem Keeps.run (hd : Keeps w h colours as d) (hw : 1 ≤ w) (hh : 1 ≤ h) (next : List Act) :
    Keeps w h colours (as ++ next) (d.run next) := by
  induction next generalizing as d with
  | nil => rwa [List.append_nil]
  | cons a next ih =>
    rw [List.append_cons]
    exact ih (hd.act hw hh a)

/-- A new window beside a new screen. -/
theorem keeps_new {s : Screen} (hs : Screen.blank w h = .ok s) {system : WindowSystem} {scale : Int}
    (hshows : system.Shows (w, h) (Presenter.sidesOf scale)) (colours : Palette) :
    Keeps w h colours [] ⟨Presenter.windowed system scale colours, s⟩ where
  width := (Screen.shows_blank hs).width
  height := (Screen.shows_blank hs).height
  binary a := .inl (by rw [Screen.cells_of_blank hs, Memory.get_zeros])
  colours := rfl
  shows := by
    intro win hwin
    cases hwin
    exact hshows
  pending := rfl

theorem Keeps.tells_frame (hd : Keeps w h colours as d) (hw : 1 ≤ w) (hh : 1 ≤ h) {x y : Int}
    (hx0 : 0 ≤ x) (hx : x < w) (hy0 : 0 ≤ y) (hy : y < h) :
    d.screen.Tells colours.background.value colours.foreground.value x y
      (((colours.frame d.screen).drop (3 * (y * w + x)).toNat).take 3) := by
  obtain rfl := hd.width
  obtain rfl := hd.height
  exact colours.tells_frame (hd.hasPixels hw hh) hd.binary hx0 hx hy0 hy

/-- Displays with one frame have one screen, unless both colours are the same. -/
theorem Keeps.screen_eq {as' : List Act} {d' : Display} (hd : Keeps w h colours as d)
    (hd' : Keeps w h colours as' d') (hw : 1 ≤ w) (hh : 1 ≤ h)
    (hne : colours.background.value ≠ colours.foreground.value)
    (hframe : colours.frame d.screen = colours.frame d'.screen) : d.screen = d'.screen := by
  refine Screen.eq_of_pixel (hd.hasPixels hw hh) (hd'.width.trans hd.width.symm)
    (hd'.height.trans hd.height.symm) fun x y hx0 hx hy0 hy => ?_
  rw [hd.width] at hx
  rw [hd.height] at hy
  have htells := hd.tells_frame hw hh hx0 hx hy0 hy
  rw [hframe] at htells
  exact htells.pixel_eq hne (hd'.tells_frame hw hh hx0 hx hy0 hy)

/-- Colours of six digits are those of a new window. -/
theorem exists_openWindow {system : WindowSystem} {b f : String} {background foreground : Nat}
    {scale : Given Int} {width : Int} (hb : SixDigits b background) (hf : SixDigits f foreground)
    (hscale : scale.resolve Presenter.standardScale = some width)
    (hopen : system.openWindow (Presenter.sidesOf width) = .ok ()) :
    ∃ colours : Palette, colours.background.value = background ∧
      colours.foreground.value = foreground ∧
      Presenter.openWindow system scale (.value (b ++ "," ++ f)) =
        .ok (Presenter.windowed system width colours) := by
  have hvalue {s : String} {n : Nat} (h : SixDigits s n) : (Colour.ofNat n).value = n :=
    Colour.value_ofNat h.sixCharacters.natAbs_lt
  refine ⟨⟨Colour.ofNat background, Colour.ofNat foreground⟩, hvalue hb, hvalue hf, ?_⟩
  have hscaled : Presenter.openScaled system scale = .ok width := by
    simp only [Presenter.openScaled, hscale, hopen]
  have hparse := Palette.parse_of_spelled (s := b ++ "," ++ f)
    (p := ⟨Colour.ofNat background, Colour.ofNat foreground⟩)
    ⟨b, f, rfl, (hvalue hb).symm ▸ hb, (hvalue hf).symm ▸ hf⟩
  have hpalette : Presenter.readPalette (.value (b ++ "," ++ f)) = .ok _ :=
    congrArg (Except.mapError Presenter.WindowError.palette) hparse
  rw [Presenter.openWindow, hscaled, hpalette]
  rfl

/-- **Frames show the screen.** Take two colours of six digits, a window system that opens a window
of the width wanted and shows pictures of a size in it, however large, a new screen of this size,
and then any acts. No change is refused and no refresh fails. A refresh paints iff a redraw is due,
which counts one frame; else it changes nothing. When it paints, the frame has three bytes a pixel,
row by row, and those of each point on the screen make up the background colour if its pixel is
clear and the foreground colour if it is set. So unless both colours are the same, two displays that
paint one frame have one screen. -/
theorem refresh_frame {system : WindowSystem} {b f : String} {background foreground : Nat}
    {scale : Given Int} {width w h : Int} (hb : SixDigits b background)
    (hf : SixDigits f foreground) (hscale : scale.resolve Presenter.standardScale = some width)
    (hopen : system.openWindow (Presenter.sidesOf width) = .ok ())
    (hshows : system.Shows (w, h) (Presenter.sidesOf width)) (hw : 1 ≤ w) (hh : 1 ≤ h) :
    ∃ p s, Presenter.openWindow system scale (.value (b ++ "," ++ f)) = .ok p ∧
      Screen.blank w h = .ok s ∧
      (∀ as : List Act,
        let d := run ⟨p, s⟩ as
        (∀ c, ∃ told, (d.screen.change c).1 = .ok told) ∧
        (d.presenter.refresh d.screen).1 = .ok (decide (Due as)) ∧
        (¬ Due as → d.act .refresh = d) ∧
        (Due as → (d.act .refresh).presenter.framesDrawn = d.presenter.framesDrawn + 1 ∧
          ∃ frame, (d.act .refresh).presenter.window.map (·.frame) = some frame ∧
            (frame.length : Int) = 3 * w * h ∧
            ∀ x y, 0 ≤ x → x < w → 0 ≤ y → y < h →
              d.screen.Tells background foreground x y
                ((frame.drop (3 * (y * w + x)).toNat).take 3))) ∧
      (background ≠ foreground → ∀ as as' : List Act, Due as → Due as' →
        ((run ⟨p, s⟩ as).act .refresh).presenter.window.map (·.frame) =
          ((run ⟨p, s⟩ as').act .refresh).presenter.window.map (·.frame) →
        (run ⟨p, s⟩ as).screen = (run ⟨p, s⟩ as').screen) := by
  obtain ⟨colours, rfl, rfl, hwindow⟩ := exists_openWindow hb hf hscale hopen
  obtain ⟨s, hs⟩ := Screen.exists_blank hw hh
  have hnew := keeps_new hs hshows colours
  refine ⟨_, s, hwindow, hs, fun as => ?_, fun hne as as' hdue hdue' hframe => ?_⟩
  · have hd := hnew.run hw hh as
    obtain ⟨hresult, hidle, hpaint, -⟩ := hd.refresh
    refine ⟨fun c => (hd.change hw hh c).1, hresult, hidle, fun hdue => ?_⟩
    obtain ⟨hdrawn, hframe⟩ := hpaint hdue
    refine ⟨hdrawn, _, hframe, ?_, fun x y hx0 hx hy0 hy => hd.tells_frame hw hh hx0 hx hy0 hy⟩
    rw [colours.length_frame, hd.width, hd.height]
  · have hd := hnew.run hw hh as
    have hd' := hnew.run hw hh as'
    rw [(hd.refresh.2.2.1 hdue).2, (hd'.refresh.2.2.1 hdue').2] at hframe
    exact hd.screen_eq hd' hw hh hne (Option.some.inj hframe)

/-- A window system with a limit to the sides of a window. It shows the pictures that have pixels
and three bytes for each. -/
def desktop : WindowSystem where
  start := .ok ()
  openWindow := fun (width, height) =>
    if 0 ≤ width ∧ width ≤ 16384 ∧ 0 ≤ height ∧ height ≤ 16384 then .ok ()
    else .error "The window has a side that is out of bounds"
  showPicture := fun frame (width, height) _ =>
    if 1 ≤ width ∧ 1 ≤ height ∧ (frame.length : Int) = 3 * width * height then .ok ()
    else .error "The picture does not have the bytes of its pixels"

/-- A flip of the pixel in the second column of the second row of a small screen, and two requests
for a redraw. -/
def flipOnce : List Act := [.change (.flip 4 (-1)), .request, .request]

theorem refresh_frame_flipOnce :
    SixDigits "00ff7F" 0xFF7F ∧ SixDigits "fffFFF" 0xFFFFFF ∧
    (Given.absent : Given Int).resolve Presenter.standardScale = some 512 ∧
    desktop.openWindow (Presenter.sidesOf 512) = .ok () ∧
    desktop.Shows (3, 2) (Presenter.sidesOf 512) ∧ (1 : Int) ≤ 3 ∧ (1 : Int) ≤ 2 ∧
    ∃ p s, Presenter.openWindow desktop .absent (.value ("00ff7F" ++ "," ++ "fffFFF")) = .ok p ∧
      Screen.blank 3 2 = .ok s ∧
      let d := run ⟨p, s⟩ flipOnce
      (d.presenter.refresh d.screen).1 = .ok true ∧
      ∃ frame, (d.act .refresh).presenter.window.map (·.frame) = some frame ∧
        (frame.length : Int) = 18 ∧
        d.screen.Tells 0xFF7F 0xFFFFFF 1 1 ((frame.drop 12).take 3) ∧
        d.screen.Tells 0xFF7F 0xFFFFFF 2 1 ((frame.drop 15).take 3) := by
  have hb : SixDigits "00ff7F" 0xFF7F := ⟨[0, 0, 15, 15, 7, 15], by decide, rfl, by decide⟩
  have hf : SixDigits "fffFFF" 0xFFFFFF := ⟨[15, 15, 15, 15, 15, 15], by decide, rfl, by decide⟩
  have hscale : (Given.absent : Given Int).resolve Presenter.standardScale = some 512 := rfl
  have hopen : desktop.openWindow (Presenter.sidesOf 512) = .ok () := by decide
  have hshows : desktop.Shows (3, 2) (Presenter.sidesOf 512) := fun frame hlength =>
    if_pos ⟨by decide, by decide, hlength⟩
  obtain ⟨p, s, hwindow, hs, hall, -⟩ :=
    refresh_frame hb hf hscale hopen hshows (by decide) (by decide)
  obtain ⟨-, hresult, -, hpaint⟩ := hall flipOnce
  obtain ⟨-, frame, hframe, hlength, htells⟩ := hpaint (by decide)
  exact ⟨hb, hf, hscale, hopen, hshows, by decide, by decide, p, s, hwindow, hs, hresult,
    frame, hframe, hlength, htells 1 1 (by decide) (by decide) (by decide) (by decide),
    htells 2 1 (by decide) (by decide) (by decide) (by decide)⟩

end Display

end Chip8
