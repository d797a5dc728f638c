import Chip8.Proofs.Screen

/-!
# Screens as tables of parities

A new screen that is flipped and cleared, wherever and however often, holds the parity of how often
each pixel was flipped since it was cleared last. A flip tells the parity before it.

* `Screen.Change`, `Screen.change`, `Screen.changes`: what can be done to a screen, once and in
  order.
* `Screen.Change.recent`, `Screen.Change.flipsAt`: the flips since the last clear, and how many of
  them are of one pixel.
* `Screen.Shows`: the screen holds the parities.
* `Screen.Shows.change`, `Screen.Shows.changes`: one change keeps it so, and any number of them.
* `Screen.changes_parity`: what a new screen holds, and what each flip tells.
-/

namespace Chip8.Screen

/-- Something done to a screen. -/
inductive Change where
  /-- The pixel that a point wraps around to is flipped. -/
  | flip (x y : Int)
  /-- Every pixel is cleared. -/
  | clear
deriving DecidableEq

/-- Carries out one change. A flip tells whether the pixel was set. -/
def change (s : Screen) : Change → Except Error (Option Bool) × Screen
  | .flip x y =>
    match s.xorPixel x y with
    | .error e => (.error e, s)
    | .ok (hit, s) => (.ok (some hit), s)
  | .clear => (.ok none, s.clear)

/-- Carries out changes in order, with what each came to. -/
def changes (s : Screen) : List Change → List (Except Error (Option Bool)) × Screen
  | [] => ([], s)
  | c :: cs => ((s.change c).1 :: ((s.change c).2.changes cs).1, ((s.change c).2.changes cs).2)

theorem length_changes (s : Screen) (cs : List Change) : (s.changes cs).1.length = cs.length := by
  induction cs generalizing s with
  | nil => rfl
  | cons c cs ih => exact congrArg (· + 1) (ih _)

namespace Change

/-- The change flips the pixel in a column and a row of a screen of `w` by `h`. -/
def Flips (w h a b : Int) : Change → Prop
  | .flip x y => x % w = a ∧ y % h = b
  | .clear => False

instance (w h a b : Int) : (c : Change) → Decidable (c.Flips w h a b)
  | .flip x y => inferInstanceAs (Decidable (x % w = a ∧ y % h = b))
  | .clear => inferInstanceAs (Decidable False)

theorem flips_flip (w h a b x y : Int) :
    (Change.flip x y).Flips w h a b ↔ x % w = a ∧ y % h = b := Iff.rfl

/-- The flips since the last clear, the newest first. -/
def recent (cs : List Change) : List Change := cs.reverse.takeWhile (· ≠ .clear)

/-- How often the pixel in a column and a row was flipped since the last clear. -/
def flipsAt (w h a b : Int) (cs : List Change) : Nat := (recent cs).countP (·.Flips w h a b)

/-- What a change tells behind others: a flip, whether its pixel was flipped an odd number of times
since the last clear. -/
def told (w h : Int) (cs : List Change) : Change → Option Bool
  | .flip x y => some (flipsAt w h (x % w) (y % h) cs % 2 = 1)
  | .clear => none

theorem flipsAt_flip (w h a b x y : Int) (cs : List Change) :
    flipsAt w h a b (cs ++ [.flip x y]) =
      flipsAt w h a b cs + if x % w = a ∧ y % h = b then 1 else 0 := by
  rw [flipsAt, recent, List.reverse_concat, List.takeWhile_cons_of_pos (by simp), List.countP_cons]
  simp only [decide_eq_true_eq, flips_flip]
  rfl

theorem flipsAt_clear (w h a b : Int) (cs : List Change) :
    flipsAt w h a b (cs ++ [.clear]) = 0 := by
  rw [flipsAt, recent, List.reverse_concat, List.takeWhile_cons_of_neg (by simp)]
  rfl

end Change

open Change

/-! ## Parities -/

/-- The parity of a number, as a cell. -/
def parity (n : Nat) : UInt8 := if n % 2 = 1 then 1 else 0

theorem parity_succ (n : Nat) : parity (n + 1) = parity n ^^^ 1 := by
  unfold parity
  rcases Nat.mod_two_eq_zero_or_one n with h | h
  · rw [if_pos (by omega), if_neg (by omega)]
    rfl
  · rw [if_neg (by omega), if_pos h]
    rfl

theorem parity_bne_zero (n : Nat) : (parity n != 0) = decide (n % 2 = 1) := by
  unfold parity
  by_cases h : n % 2 = 1
  · rw [if_pos h, decide_eq_true h]
    rfl
  · rw [if_neg h, decide_eq_false h]
    rfl

/-- The screen is of `w` by `h`, and each pixel holds the parity of its flips. -/
structure Shows (s : Screen) (w h : Int) (cs : List Change) : Prop where
  /-- The number of columns. -/
  width : s.width = w
  /-- The number of rows. -/
  height : s.height = h
  /-- Each pixel holds its parity. -/
  cell : ∀ a b, s.cell a b = parity (flipsAt w h (a % w) (b % h) cs)

section

variable {s : Screen} {w h : Int} {cs : List Change}

theorem Shows.hasPixels (hs : s.Shows w h cs) (hw : 1 ≤ w) (hh : 1 ≤ h) : s.HasPixels :=
  ⟨by rw [hs.width]; omega, by rw [hs.height]; omega⟩

theorem Shows.flip (hs : s.Shows w h cs) (hw : 1 ≤ w) (hh : 1 ≤ h) (x y : Int) :
    (s.flip x y).Shows w h (cs ++ [.flip x y]) where
  width := hs.width
  height := hs.height
  cell a b := by
    have hpix := hs.hasPixels hw hh
    rw [cell_flip hpix, hs.cell, flipsAt_flip]
    simp only [wrapped_eq_iff hpix, hs.width, hs.height]
    split
    · exact (parity_succ _).symm
    · rfl

theorem shows_clear (hw : s.width = w) (hh : s.height = h) (cs : List Change) :
    s.clear.Shows w h (cs ++ [.clear]) where
  width := hw
  height := hh
  cell a b := by
    rw [flipsAt_clear]
    exact Memory.get_zeros _ _

/-- One change is not refused, tells the parity before it, and leaves the parities behind it. -/
theorem Shows.change (hs : s.Shows w h cs) (hw : 1 ≤ w) (hh : 1 ≤ h) (c : Change) :
    (s.change c).1 = .ok (c.told w h cs) ∧ (s.change c).2.Shows w h (cs ++ [c]) := by
  cases c with
  | clear => exact ⟨rfl, shows_clear hs.width hs.height cs⟩
  | flip x y =>
    have hflip : s.change (.flip x y) = (.ok (some (s.cell x y != 0)), s.flip x y) := by
      rw [Screen.change, xorPixel_eq (hs.hasPixels hw hh)]
    rw [hflip, hs.cell, parity_bne_zero]
    exact ⟨rfl, hs.flip hw hh x y⟩

/-- Any number of changes leave the parities behind them. -/
theorem Shows.changes (hs : s.Shows w h cs) (hw : 1 ≤ w) (hh : 1 ≤ h) (next : List Change) :
    (s.changes next).2.Shows w h (cs ++ next) := by
  induction next generalizing s cs with
  | nil => rwa [List.append_nil]
  | cons c next ih =>
    rw [List.append_cons]
    exact ih (hs.change hw hh c).2

/-- None of any number of changes is refused. -/
theorem Shows.allowed (hs : s.Shows w h cs) (hw : 1 ≤ w) (hh : 1 ≤ h) (next : List Change) :
    ∀ r ∈ (s.changes next).1, ∃ told, r = .ok told := by
  induction next generalizing s cs with
  | nil => exact fun r hr => nomatch hr
  | cons c next ih =>
    obtain ⟨htold, hnext⟩ := hs.change hw hh c
    intro r hr
    rcases List.mem_cons.1 hr with rfl | hr
    · exact ⟨_, htold⟩
    · exact ih hnext r hr

/-- Each of any number of changes tells the parity before it. -/
theorem Shows.getElem?_changes (hs : s.Shows w h cs) (hw : 1 ≤ w) (hh : 1 ≤ h)
    (pre : List Change) (c : Change) (post : List Change) :
    (s.changes (pre ++ c :: post)).1[pre.length]? = some (.ok (c.told w h (cs ++ pre))) := by
  induction pre generalizing s cs with
  | nil =>
    rw [List.append_nil]
    exact congrArg some (hs.change hw hh c).1
  | cons d pre ih =>
    rw [List.append_cons cs]
    exact ih (hs.change hw hh d).2

/-- What a point on the screen shows. -/
theorem Shows.pixel (hs : s.Shows w h cs) (hw : 1 ≤ w) (hh : 1 ≤ h) {a b : Int} (ha0 : 0 ≤ a)
    (ha : a < w) (hb0 : 0 ≤ b) (hb : b < h) :
    s.pixel a b = .ok (parity (flipsAt w h a b cs)) := by
  rw [pixel_eq_cell (hs.hasPixels hw hh) ha0 (hs.width ▸ ha) hb0 (hs.height ▸ hb), hs.cell,
    Int.emod_eq_of_lt ha0 ha, Int.emod_eq_of_lt hb0 hb]

/-- Screens that hold the parities of the same recent flips, in any order, are the same. -/
theorem Shows.eq_of_perm {t : Screen} {cs' : List Change} (hs : s.Shows w h cs)
    (ht : t.Shows w h cs') (hw : 1 ≤ w) (hh : 1 ≤ h) (hp : (recent cs).Perm (recent cs')) :
    s = t := by
  refine eq_of_cell (hs.hasPixels hw hh) (ht.width.trans hs.width.symm)
    (ht.height.trans hs.height.symm) fun a b => ?_
  rw [hs.cell, ht.cell, flipsAt, flipsAt, hp.countP_eq]

end

/-! ## New screens -/

theorem bank_of_blank {w h : Int} {s : Screen} (hs : blank w h = .ok s) :
    s.width = w ∧ s.height = h ∧ Memory.ofSize (w * h) = .ok s.cells := by
  unfold blank at hs
  split at hs
  · cases hs
  · rename_i cells hcells
    cases hs
    exact ⟨rfl, rfl, hcells⟩

theorem cells_of_blank {w h : Int} {s : Screen} (hs : blank w h = .ok s) :
    s.cells = Memory.zeros (w * h).toNat := by
  obtain ⟨-, -, hbank⟩ := bank_of_blank hs
  unfold Memory.ofSize at hbank
  split at hbank
  · cases hbank
  · exact (Except.ok.inj hbank).symm

theorem shows_blank {w h : Int} {s : Screen} (hs : blank w h = .ok s) : s.Shows w h [] := by
  obtain ⟨hw, hh, -⟩ := bank_of_blank hs
  refine ⟨hw, hh, fun a b => ?_⟩
  rw [cell, cells_of_blank hs]
  exact Memory.get_zeros _ _

/-- There is a new screen of any size. -/
theorem exists_blank {w h : Int} (hw : 1 ≤ w) (hh : 1 ≤ h) : ∃ s, blank w h = .ok s := by
  have harea : 0 ≤ w * h := Int.mul_nonneg (by omega) (by omega)
  have hbank : Memory.ofSize (w * h) = .ok (Memory.zeros (w * h).toNat) := if_neg (by omega)
  unfold blank
  split
  · rename_i e he
    rw [hbank] at he
    cases he
  · exact ⟨_, rfl⟩

/-- **Screens are tables of parities.** There is a new screen of any size, and no change to it is
refused, wherever the point is. Then each pixel is the parity of its flips since the last clear,
whatever their order, and each flip tells whether the same pixel was flipped an odd number of times
since the last clear before it. -/
theorem changes_parity {w h : Int} (hw : 1 ≤ w) (hh : 1 ≤ h) :
    ∃ s, blank w h = .ok s ∧ ∀ cs : List Change,
      (s.changes cs).1.length = cs.length ∧
      (∀ r ∈ (s.changes cs).1, ∃ told, r = .ok told) ∧
      (∀ a b, 0 ≤ a → a < w → 0 ≤ b → b < h →
        (s.changes cs).2.pixel a b = .ok (if flipsAt w h a b cs % 2 = 1 then 1 else 0)) ∧
      (∀ pre x y post, cs = pre ++ .flip x y :: post →
        (s.changes cs).1[pre.length]? =
          some (.ok (some (decide (flipsAt w h (x % w) (y % h) pre % 2 = 1))))) ∧
      (∀ cs', (recent cs).Perm (recent cs') → (s.changes cs).2 = (s.changes cs').2) := by
  obtain ⟨s, hs⟩ := exists_blank hw hh
  refine ⟨s, hs, fun cs => ?_⟩
  have hblank := shows_blank hs
  have hlast (cs : List Change) : (s.changes cs).2.Shows w h cs := hblank.changes hw hh cs
  refine ⟨length_changes s cs, hblank.allowed hw hh cs, fun a b ha0 ha hb0 hb => ?_, ?_,
    fun cs' hp => ?_⟩
  · exact (hlast cs).pixel hw hh ha0 ha hb0 hb
  · rintro pre x y post rfl
    exact hblank.getElem?_changes hw hh pre (.flip x y) post
  · exact (hlast cs).eq_of_perm (hlast cs') hw hh hp

/-- Five flips around the edges of a small screen and a clear among them. The pixel in the corner is
hit twice before the clear and twice after it. -/
def aroundCorner : List Change :=
  [.flip (-1) (-1), .flip 5 3, .clear, .flip (-4) 7, .flip 0 0, .flip 2 (-3)]

theorem changes_parity_aroundCorner :
    (1 : Int) ≤ 3 ∧ (1 : Int) ≤ 2 ∧ ∃ s, blank 3 2 = .ok s ∧
      (s.changes aroundCorner).2.pixel 2 1 = .ok 0 ∧
      (s.changes aroundCorner).2.pixel 0 0 = .ok 1 ∧
      (s.changes aroundCorner).1[1]? = some (.ok (some true)) ∧
      (s.changes aroundCorner).1[3]? = some (.ok (some false)) ∧
      (s.changes aroundCorner).1[5]? = some (.ok (some true)) ∧
      (s.changes aroundCorner).2 = (s.changes [.flip 2 (-3), .flip (-4) 7, .flip 0 0]).2 := by
  obtain ⟨s, hs, hall⟩ := changes_parity (w := 3) (h := 2) (by decide) (by decide)
  obtain ⟨-, -, hpixel, hflip, hperm⟩ := hall aroundCorner
  refine ⟨by decide, by decide, s, hs, hpixel 2 1 (by decide) (by decide) (by decide) (by decide),
    hpixel 0 0 (by decide) (by decide) (by decide) (by decide),
    hflip [.flip (-1) (-1)] 5 3 [.clear, .flip (-4) 7, .flip 0 0, .flip 2 (-3)] rfl,
    hflip [.flip (-1) (-1), .flip 5 3, .clear] (-4) 7 [.flip 0 0, .flip 2 (-3)] rfl,
    hflip [.flip (-1) (-1), .flip 5 3, .clear, .flip (-4) 7, .flip 0 0] 2 (-3) [] rfl,
    hperm _ (by decide)⟩

end Chip8.Screen
