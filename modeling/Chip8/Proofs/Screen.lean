import Chip8.Proofs.Memory
import Chip8.Screen

/-!
# Flipping pixels

On a screen that has pixels no flip is refused, so `Screen.xorPixels` is a fold: the screen after
it is `Screen.flips`, what it tells is `Screen.hits`.

* `Screen.xorPixels_eq`: flipping in terms of these two.
* `Screen.wrapped_eq_iff`: two points wrap around to one cell iff both coordinates are congruent.
* `Screen.cell_flips`: a cell changes by the parity of the number of points that wrap around to it.
* `Screen.mem_hits`: a flip tells of a set pixel iff the flips before it leave the pixel set.
* `Screen.cell_flips_of_apart`, `Screen.mem_hits_of_apart`: the same for points that wrap around to
  different cells.
* `Screen.flips_of_perm`, `Screen.flips_flips_of_perm`: flips may be made in any order, and once
  more to undo them.
-/

namespace Chip8.Screen

/-- Both axes have pixels to wrap around. -/
structure HasPixels (s : Screen) : Prop where
  /-- There is a column. -/
  width_pos : 0 < s.width
  /-- There is a row. -/
  height_pos : 0 < s.height

/-- The cell that `(x, y)` wraps around to. -/
def cell (s : Screen) (x y : Int) : UInt8 := s.cells.get (s.wrapped x y)

/-- The screen with the pixel flipped that `(x, y)` wraps around to. -/
def flip (s : Screen) (x y : Int) : Screen := s.put (s.wrapped x y) (s.cell x y ^^^ 1)

/-- The screen after flips in order. -/
def flips (s : Screen) : List (Int × Int) → Screen
  | [] => s
  | p :: ps => (s.flip p.1 p.2).flips ps

/-- Of each flip in order, whether the pixel was set. -/
def hits (s : Screen) : List (Int × Int) → List Bool
  | [] => []
  | p :: ps => (s.cell p.1 p.2 != 0) :: (s.flip p.1 p.2).hits ps

/-- A cell after `n` flips. -/
def flipped (b : UInt8) (n : Nat) : UInt8 := if n % 2 = 0 then b else b ^^^ 1

/-! ## Shape -/

@[simp] theorem width_flip (s : Screen) (x y : Int) : (s.flip x y).width = s.width := rfl

@[simp] theorem height_flip (s : Screen) (x y : Int) : (s.flip x y).height = s.height := rfl

@[simp] theorem wrapped_flip (s : Screen) (x y a b : Int) :
    (s.flip x y).wrapped a b = s.wrapped a b := rfl

@[simp] theorem width_flips (s : Screen) (ps : List (Int × Int)) :
    (s.flips ps).width = s.width := by
  induction ps generalizing s with
  | nil => rfl
  | cons p ps ih => rw [flips, ih, width_flip]

@[simp] theorem height_flips (s : Screen) (ps : List (Int × Int)) :
    (s.flips ps).height = s.height := by
  induction ps generalizing s with
  | nil => rfl
  | cons p ps ih => rw [flips, ih, height_flip]

theorem HasPixels.flip {s : Screen} (h : s.HasPixels) (x y : Int) : (s.flip x y).HasPixels :=
  ⟨h.width_pos, h.height_pos⟩

/-! ## Addresses -/

theorem wrapped_eq {s : Screen} (h : s.HasPixels) (x y : Int) :
    s.wrapped x y = y % s.height * s.width + x % s.width := by
  have hw := h.width_pos
  have hh := h.height_pos
  rw [wrapped, address, Int.fmod_eq_emod_of_nonneg _ (by omega),
    Int.fmod_eq_emod_of_nonneg _ (by omega)]

/-- Row-major order puts the cells of a row before those of the next. -/
private theorem rowMajor_lt {w h c r : Int} (hc : c < w) (hr : r < h) (hw : 0 < w) :
    r * w + c < w * h := by
  have h1 : (r + 1) * w ≤ h * w := Int.mul_le_mul_of_nonneg_right (by omega) (by omega)
  have h2 : (r + 1) * w = r * w + w := by rw [Int.add_mul, Int.one_mul]
  rw [Int.mul_comm w h]
  omega

/-- The address of a pixel tells its column and its row. -/
private theorem rowMajor_inj {w c c' r r' : Int} (hc0 : 0 ≤ c) (hc : c < w) (hc0' : 0 ≤ c')
    (hc' : c' < w) (h : r * w + c = r' * w + c') : c = c' ∧ r = r' := by
  have e : ∀ {a b : Int}, 0 ≤ b → b < w → (a * w + b) / w = a := by
    intro a b h0 h1
    rw [Int.add_comm, Int.add_mul_ediv_right _ _ (by omega), Int.ediv_eq_zero_of_lt h0 h1,
      Int.zero_add]
  have hr : r = r' := by rw [← e hc0 hc (a := r), h, e hc0' hc']
  subst hr
  exact ⟨by omega, rfl⟩

theorem wrapped_inRange {s : Screen} (h : s.HasPixels) (x y : Int) :
    s.cells.InRange (s.wrapped x y) := by
  have hw := h.width_pos
  have hh := h.height_pos
  have hx0 := Int.emod_nonneg x (b := s.width) (by omega)
  have hx := Int.emod_lt_of_pos x hw
  have hy0 := Int.emod_nonneg y (b := s.height) (by omega)
  have hy := Int.emod_lt_of_pos y hh
  have hmul : 0 ≤ y % s.height * s.width := Int.mul_nonneg hy0 (by omega)
  rw [Memory.InRange, s.size_cells, wrapped_eq h]
  exact ⟨by omega, rowMajor_lt hx hy hw⟩

/-- Two points wrap around to one cell iff both their coordinates are congruent. -/
theorem wrapped_eq_iff {s : Screen} (h : s.HasPixels) (x y a b : Int) :
    s.wrapped x y = s.wrapped a b ↔ x % s.width = a % s.width ∧ y % s.height = b % s.height := by
  rw [wrapped_eq h, wrapped_eq h]
  constructor
  · intro he
    have hw : s.width ≠ 0 := by have := h.width_pos; omega
    exact rowMajor_inj (Int.emod_nonneg x hw) (Int.emod_lt_of_pos x h.width_pos)
      (Int.emod_nonneg a hw) (Int.emod_lt_of_pos a h.width_pos) he
  · rintro ⟨hx, hy⟩
    rw [hx, hy]

/-- A point on the screen is its own cell. -/
theorem wrapped_of_mem {s : Screen} (h : s.HasPixels) {x y : Int} (hx0 : 0 ≤ x) (hx : x < s.width)
    (hy0 : 0 ≤ y) (hy : y < s.height) : s.wrapped x y = y * s.width + x := by
  rw [wrapped_eq h, Int.emod_eq_of_lt hx0 hx, Int.emod_eq_of_lt hy0 hy]

/-- A point on the screen shows its cell. -/
theorem pixel_eq_cell {s : Screen} (h : s.HasPixels) {x y : Int} (hx0 : 0 ≤ x) (hx : x < s.width)
    (hy0 : 0 ≤ y) (hy : y < s.height) : s.pixel x y = .ok (s.cell x y) := by
  have haddr : s.address x y = s.wrapped x y := (wrapped_of_mem h hx0 hx hy0 hy).symm
  rw [pixel, haddr, Memory.read, if_pos (wrapped_inRange h x y)]
  rfl

/-! ## One flip -/

theorem xorPixel_eq {s : Screen} (h : s.HasPixels) (x y : Int) :
    s.xorPixel x y = .ok (s.cell x y != 0, s.flip x y) := by
  have hw := h.width_pos
  have hh := h.height_pos
  rw [xorPixel, if_neg (by omega), Memory.read, if_pos (wrapped_inRange h x y)]
  rfl

theorem cell_flip {s : Screen} (h : s.HasPixels) (x y a b : Int) :
    (s.flip x y).cell a b =
      if s.wrapped x y = s.wrapped a b then s.cell a b ^^^ 1 else s.cell a b := by
  have hget : (s.flip x y).cell a b =
      if s.wrapped a b = s.wrapped x y ∧ s.cells.InRange (s.wrapped x y)
      then s.cell x y ^^^ 1 else s.cell a b := Memory.get_put ..
  rw [hget]
  by_cases he : s.wrapped x y = s.wrapped a b
  · rw [if_pos ⟨he.symm, wrapped_inRange h x y⟩, if_pos he, cell, cell, he]
  · rw [if_neg fun hc => he hc.1.symm, if_neg he]

/-! ## Flips in order -/

theorem xorPixels_eq {s : Screen} (h : s.HasPixels) (ps : List (Int × Int)) :
    s.xorPixels ps = (.ok (s.hits ps), s.flips ps) := by
  induction ps generalizing s with
  | nil => rfl
  | cons p ps ih =>
    obtain ⟨x, y⟩ := p
    rw [xorPixels, xorPixel_eq h]
    simp only [ih (h.flip x y), hits, flips]

@[simp] theorem flipped_zero (b : UInt8) : flipped b 0 = b := rfl

theorem xor_one_xor_one (b : UInt8) : b ^^^ 1 ^^^ 1 = b := by
  rw [UInt8.xor_assoc, UInt8.xor_self, UInt8.xor_zero]

theorem flipped_succ (b : UInt8) (n : Nat) : flipped b (n + 1) = flipped (b ^^^ 1) n := by
  unfold flipped
  rcases Nat.mod_two_eq_zero_or_one n with h | h
  · rw [if_neg (by omega), if_pos h]
  · rw [if_pos (by omega), if_neg (by omega), xor_one_xor_one]

/-- **Parity.** A cell changes by the parity of the number of points that wrap around to it. -/
theorem cell_flips {s : Screen} (h : s.HasPixels) (ps : List (Int × Int)) (a b : Int) :
    (s.flips ps).cell a b =
      flipped (s.cell a b) (ps.countP fun p => s.wrapped p.1 p.2 = s.wrapped a b) := by
  induction ps generalizing s with
  | nil => rfl
  | cons p ps ih =>
    rw [flips, ih (h.flip p.1 p.2), cell_flip h, List.countP_cons]
    simp only [wrapped_flip, decide_eq_true_eq]
    split
    · exact (flipped_succ _ _).symm
    · rfl

/-- A flip tells of a set pixel iff the flips before it leave the pixel set. -/
theorem mem_hits (s : Screen) (ps : List (Int × Int)) :
    true ∈ s.hits ps ↔ ∃ pre p post, ps = pre ++ p :: post ∧ (s.flips pre).cell p.1 p.2 ≠ 0 := by
  induction ps generalizing s with
  | nil => simp [hits]
  | cons q qs ih =>
    rw [hits, List.mem_cons, ih]
    constructor
    · rintro (hq | ⟨pre, p, post, rfl, hp⟩)
      · exact ⟨[], q, qs, rfl, by simpa [flips] using hq.symm⟩
      · exact ⟨q :: pre, p, post, rfl, hp⟩
    · rintro ⟨pre, p, post, he, hp⟩
      cases pre with
      | nil =>
        cases he
        exact .inl (by simpa [flips] using hp)
      | cons _ pre =>
        cases he
        exact .inr ⟨pre, p, post, rfl, hp⟩

/-! ## Flips of different cells -/

/-- The points wrap around to different cells. -/
def Apart (s : Screen) (ps : List (Int × Int)) : Prop :=
  ps.Pairwise fun p q => s.wrapped p.1 p.2 ≠ s.wrapped q.1 q.2

/-- Each of the points flips its own cell, once. -/
theorem cell_flips_of_apart {s : Screen} (h : s.HasPixels) {ps : List (Int × Int)}
    (hps : s.Apart ps) (a b : Int) [Decidable (∃ p ∈ ps, s.wrapped p.1 p.2 = s.wrapped a b)] :
    (s.flips ps).cell a b =
      if ∃ p ∈ ps, s.wrapped p.1 p.2 = s.wrapped a b then s.cell a b ^^^ 1 else s.cell a b := by
  rw [cell_flips h]
  split
  · rename_i hex
    obtain ⟨p, hp, he⟩ := hex
    obtain ⟨pre, post, rfl⟩ := List.append_of_mem hp
    rw [Apart, List.pairwise_append, List.pairwise_cons] at hps
    obtain ⟨-, ⟨hpost, -⟩, hpre⟩ := hps
    have h1 : pre.countP (fun q => s.wrapped q.1 q.2 = s.wrapped a b) = 0 :=
      List.countP_eq_zero.2 fun q hq => by
        simpa [he] using hpre q hq p (List.mem_cons_self ..)
    have h2 : post.countP (fun q => s.wrapped q.1 q.2 = s.wrapped a b) = 0 :=
      List.countP_eq_zero.2 fun q hq => by simpa [he] using (hpost q hq).symm
    rw [List.countP_append, List.countP_cons, h1, h2]
    simp [he, flipped]
  · rename_i hex
    have h0 : ps.countP (fun q => s.wrapped q.1 q.2 = s.wrapped a b) = 0 :=
      List.countP_eq_zero.2 fun q hq => by
        simpa using fun hqe => hex ⟨q, hq, hqe⟩
    rw [h0, flipped_zero]

/-- Points apart hit a set pixel iff one of their pixels was set at first. -/
theorem mem_hits_of_apart {s : Screen} (h : s.HasPixels) {ps : List (Int × Int)}
    (hps : s.Apart ps) : true ∈ s.hits ps ↔ ∃ p ∈ ps, s.cell p.1 p.2 ≠ 0 := by
  have first : ∀ pre p post, ps = pre ++ p :: post →
      (s.flips pre).cell p.1 p.2 = s.cell p.1 p.2 := by
    rintro pre p post rfl
    rw [Apart, List.pairwise_append] at hps
    obtain ⟨-, -, hpre⟩ := hps
    have h0 : pre.countP (fun q => s.wrapped q.1 q.2 = s.wrapped p.1 p.2) = 0 :=
      List.countP_eq_zero.2 fun q hq => by simpa using hpre q hq p (List.mem_cons_self ..)
    rw [cell_flips h, h0, flipped_zero]
  rw [mem_hits]
  constructor
  · rintro ⟨pre, p, post, rfl, hp⟩
    exact ⟨p, by simp, by rwa [first pre p post rfl] at hp⟩
  · rintro ⟨p, hp, hset⟩
    obtain ⟨pre, post, rfl⟩ := List.append_of_mem hp
    exact ⟨pre, p, post, rfl, by rwa [first pre p post rfl]⟩

/-! ## Flips in any order -/

theorem flips_append (s : Screen) (ps qs : List (Int × Int)) :
    s.flips (ps ++ qs) = (s.flips ps).flips qs := by
  induction ps generalizing s with
  | nil => rfl
  | cons p ps ih => exact ih _

/-- Screens of one shape with the same pixels are the same. -/
theorem eq_of_cell {s t : Screen} (hs : s.HasPixels) (hw : t.width = s.width)
    (hh : t.height = s.height) (h : ∀ a b, s.cell a b = t.cell a b) : s = t := by
  have hsize : s.cells.size = t.cells.size := by
    have hs' := s.size_cells
    have ht' := t.size_cells
    rw [hw, hh] at ht'
    omega
  have hcells : s.cells = t.cells := by
    refine Memory.eq_of_get hsize fun c hc => ?_
    obtain ⟨hc0, hlt⟩ := hc
    rw [s.size_cells, Int.mul_comm] at hlt
    -- Each address is that of a pixel.
    have hwrap : ∀ {u : Screen}, u.width = s.width → u.height = s.height →
        u.wrapped (c % s.width) (c / s.width) = c := by
      intro u huw huh
      have hpos := hs.width_pos
      rw [wrapped_of_mem ⟨by rw [huw]; exact hpos, by rw [huh]; exact hs.height_pos⟩
        (Int.emod_nonneg c (by omega)) (by rw [huw]; exact Int.emod_lt_of_pos c hpos)
        (Int.ediv_nonneg hc0 (by omega)) (by rw [huh]; exact Int.ediv_lt_of_lt_mul hpos hlt), huw]
      exact Int.ediv_mul_add_emod c s.width
    have hcell := h (c % s.width) (c / s.width)
    rwa [cell, cell, hwrap rfl rfl, hwrap hw hh] at hcell
  obtain ⟨w, h, cells, _⟩ := s
  obtain ⟨w', h', cells', _⟩ := t
  cases hw
  cases hh
  cases hcells
  rfl

/-- Screens of one shape that show the same at each point on them are the same. -/
theorem eq_of_pixel {s t : Screen} (hs : s.HasPixels) (hw : t.width = s.width)
    (hh : t.height = s.height)
    (h : ∀ x y, 0 ≤ x → x < s.width → 0 ≤ y → y < s.height → s.pixel x y = t.pixel x y) :
    s = t := by
  have hwidth := hs.width_pos
  have hheight := hs.height_pos
  have ht : t.HasPixels := ⟨by omega, by omega⟩
  refine eq_of_cell hs hw hh fun a b => ?_
  have hcell {u : Screen} (hu : u.HasPixels) (huw : u.width = s.width)
      (huh : u.height = s.height) : u.pixel (a % s.width) (b % s.height) = .ok (u.cell a b) := by
    have hx := Int.emod_lt_of_pos a hwidth
    have hy := Int.emod_lt_of_pos b hheight
    rw [pixel_eq_cell hu (Int.emod_nonneg a (by omega)) (by omega)
      (Int.emod_nonneg b (by omega)) (by omega), cell, cell, (wrapped_eq_iff hu _ _ a b).2]
    rw [huw, huh, Int.emod_emod, Int.emod_emod]
    exact ⟨rfl, rfl⟩
  have hpixel := h (a % s.width) (b % s.height) (Int.emod_nonneg a (by omega))
    (Int.emod_lt_of_pos a hwidth) (Int.emod_nonneg b (by omega)) (Int.emod_lt_of_pos b hheight)
  rw [hcell hs rfl rfl, hcell ht hw hh] at hpixel
  exact Except.ok.inj hpixel

/-- The order of flips does not matter. -/
theorem flips_of_perm {s : Screen} (h : s.HasPixels) {ps qs : List (Int × Int)}
    (hp : ps.Perm qs) : s.flips ps = s.flips qs := by
  have hs : (s.flips ps).HasPixels := ⟨by simpa using h.width_pos, by simpa using h.height_pos⟩
  refine eq_of_cell hs (by simp) (by simp) fun a b => ?_
  rw [cell_flips h, cell_flips h, hp.countP_eq]

theorem flipped_add_self (b : UInt8) (n : Nat) : flipped b (n + n) = b := by
  rw [flipped, if_pos (by omega)]

/-- Flips are undone by the same flips in any order. -/
theorem flips_flips_of_perm {s : Screen} (h : s.HasPixels) {ps qs : List (Int × Int)}
    (hp : ps.Perm qs) : (s.flips ps).flips qs = s := by
  rw [← flips_append]
  symm
  refine eq_of_cell h (by simp) (by simp) fun a b => ?_
  rw [cell_flips h, List.countP_append, hp.countP_eq, flipped_add_self]

end Chip8.Screen
