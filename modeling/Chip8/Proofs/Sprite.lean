import Chip8.Proofs.Exec
import Chip8.Proofs.Host

/-!
# Sprites

A sprite is at most eight columns wide and fifteen rows high, so on the standard screen its points
wrap around to different pixels, and drawing it flips each of them once.

* `Machine.mem_spritePixels`: the points of a sprite.
* `Machine.sprite_apart`: they wrap around to different pixels.
* `Machine.spriteBit`: whether a sprite has a set bit at a pixel.
* `Machine.covered_iff`: the pixels that the points of a sprite wrap around to are those.
* `Instr.exec_draw_pixels`: what drawing does to each pixel, the flag and everything else.
-/

namespace Chip8

namespace Machine

/-- The pixel in column `px` of row `py`. -/
def pixelAt (m : Machine) (px py : Nat) : UInt8 := m.screen.cells.get (py * 64 + px)

/-- Whether the sprite of height `n` at the place that two registers name has a set bit at a pixel.
The columns and rows are counted from the corner of the sprite, around the edges of the screen; the
leftmost column is the highest bit. -/
def spriteBit (m : Machine) (x y : Fin 16) (n px py : Nat) : Bool :=
  let col := (px - (m.reg x).toNat : Int) % 64
  let row := (py - (m.reg y).toNat : Int) % 32
  decide (row < n) && decide (col < 8) &&
    (m.byteAt (m.index + row)).toNat.testBit (7 - col.toNat)

/-- A pixel of the screen is set before and clear after. -/
def Clears (m m' : Machine) : Prop :=
  ∃ px py, px < 64 ∧ py < 32 ∧ m.pixelAt px py = 1 ∧ m'.pixelAt px py = 0

/-! ## The points of a sprite -/

theorem mem_spritePixels {left top : Int} {rows : List UInt8} {p : Int × Int} :
    p ∈ spritePixels left top rows ↔
      ∃ (dy dx : Nat) (row : UInt8), rows[dy]? = some row ∧ dx < 8 ∧
        row.toNat.testBit (7 - dx) = true ∧ p = (left + dx, top + dy) := by
  simp only [spritePixels, List.mem_flatMap, List.mem_filterMap, List.mem_range,
    List.mem_zipIdx_iff_getElem?]
  constructor
  · rintro ⟨⟨row, dy⟩, hrow, dx, hdx, hp⟩
    split at hp
    · rename_i hbit
      cases hp
      exact ⟨dy, dx, row, hrow, hdx, hbit, rfl⟩
    · cases hp
  · rintro ⟨dy, dx, row, hrow, hdx, hbit, rfl⟩
    exact ⟨(row, dy), hrow, dx, hdx, by rw [if_pos hbit]⟩

/-- Points that are fewer columns and rows apart than the screen has wrap around to different
pixels. -/
theorem wrapped_ne {s : Screen} (hs : s.HasPixels) {left top : Int} {dx dy dx' dy' : Nat}
    (hx : (dx : Int) < s.width) (hx' : (dx' : Int) < s.width) (hy : (dy : Int) < s.height)
    (hy' : (dy' : Int) < s.height) (hne : dx ≠ dx' ∨ dy ≠ dy') :
    s.wrapped (left + dx) (top + dy) ≠ s.wrapped (left + dx') (top + dy') := by
  intro he
  rw [Screen.wrapped_eq_iff hs, Int.emod_add_cancel_left, Int.emod_add_cancel_left] at he
  obtain ⟨hcol, hrow⟩ := he
  rw [Int.emod_eq_of_lt (by omega) hx, Int.emod_eq_of_lt (by omega) hx'] at hcol
  rw [Int.emod_eq_of_lt (by omega) hy, Int.emod_eq_of_lt (by omega) hy'] at hrow
  omega

/-- The points of a sprite that is no larger than the screen wrap around to different pixels. -/
theorem spritePixels_apart {s : Screen} (hs : s.HasPixels) (left top : Int) {rows : List UInt8}
    (hw : 8 ≤ s.width) (hh : (rows.length : Int) ≤ s.height) :
    s.Apart (spritePixels left top rows) := by
  have hrows : rows.zipIdx.Pairwise fun a b => a.2 < b.2 := by
    rw [← List.pairwise_map, List.zipIdx_map_snd]
    exact List.pairwise_lt_range'
  have hlt : ∀ {row : UInt8} {dy : Nat}, (row, dy) ∈ rows.zipIdx → (dy : Int) < s.height := by
    intro row dy h
    rw [List.mem_zipIdx_iff_getElem?] at h
    obtain ⟨hdy, -⟩ := List.getElem?_eq_some_iff.1 h
    omega
  rw [Screen.Apart, spritePixels, List.pairwise_flatMap]
  constructor
  · rintro ⟨row, dy⟩ hrow
    rw [List.pairwise_filterMap]
    refine List.pairwise_lt_range.imp_of_mem ?_
    intro dx dx' hdx hdx' hne p hp q hq
    rw [List.mem_range] at hdx hdx'
    split at hp <;> cases hp
    split at hq <;> cases hq
    exact wrapped_ne hs (by omega) (by omega) (hlt hrow) (hlt hrow) (.inl (by omega))
  · refine hrows.imp_of_mem ?_
    rintro ⟨row, dy⟩ ⟨row', dy'⟩ hrow hrow' hne p hp q hq
    rw [List.mem_filterMap] at hp hq
    obtain ⟨dx, hdx, hp⟩ := hp
    obtain ⟨dx', hdx', hq⟩ := hq
    rw [List.mem_range] at hdx hdx'
    split at hp <;> cases hp
    split at hq <;> cases hq
    refine wrapped_ne hs (by omega) (by omega) (hlt hrow) (hlt hrow') (.inr ?_)
    simp only at hne
    omega

theorem sprite_apart {m : Machine} (hm : m.WellFormed) (x y n : Fin 16) :
    m.screen.Apart (m.sprite x y n.val) := by
  obtain ⟨hw, hh⟩ := hm.screen_size
  refine spritePixels_apart hm.hasPixels _ _ (by omega) ?_
  rw [hh, bytes, List.length_map, List.length_range]
  omega

/-- The pixels that the points of a sprite wrap around to are those at which it has a set bit. -/
theorem covered_iff {m : Machine} (hm : m.WellFormed) (x y : Fin 16) (n px py : Nat) (hn : n < 16) :
    (∃ p ∈ m.sprite x y n, m.screen.wrapped p.1 p.2 = m.screen.wrapped px py) ↔
      m.spriteBit x y n px py = true := by
  have hcol := Int.emod_nonneg (px - (m.reg x).toNat : Int) (b := 64) (by decide)
  have hrow := Int.emod_nonneg (py - (m.reg y).toNat : Int) (b := 32) (by decide)
  obtain ⟨hw, hh⟩ := hm.screen_size
  simp only [sprite, mem_spritePixels, bytes, List.getElem?_map, Option.map_eq_some_iff,
    spriteBit, Bool.and_eq_true, decide_eq_true_eq, Screen.wrapped_eq_iff hm.hasPixels, hw, hh]
  constructor
  · rintro ⟨p, ⟨dy, dx, row, ⟨k, hk, rfl⟩, hdx, hbit, rfl⟩, hx, hy⟩
    obtain ⟨hdy, rfl⟩ := List.getElem?_eq_some_iff.1 hk
    rw [List.length_range] at hdy
    have ecol : (px - (m.reg x).toNat : Int) % 64 = dx := by omega
    have erow : (py - (m.reg y).toNat : Int) % 32 = dy := by omega
    rw [ecol, erow]
    rw [List.getElem_range] at hbit
    exact ⟨⟨by omega, by omega⟩, hbit⟩
  · rintro ⟨⟨hn', hc⟩, hbit⟩
    obtain ⟨dx, ecol⟩ := Int.eq_ofNat_of_zero_le hcol
    obtain ⟨dy, erow⟩ := Int.eq_ofNat_of_zero_le hrow
    rw [ecol, erow] at hbit
    refine ⟨_, ⟨dy, dx, _, ⟨dy, List.getElem?_range (by omega), rfl⟩, by omega, hbit, rfl⟩, ?_, ?_⟩
    · simp only []
      omega
    · simp only []
      omega

/-! ## Drawing -/

theorem pixelAt_eq_cell {m : Machine} (hm : m.WellFormed) {px py : Nat} (hx : px < 64)
    (hy : py < 32) : m.pixelAt px py = m.screen.cell px py := by
  obtain ⟨hw, hh⟩ := hm.screen_size
  rw [Screen.cell, Screen.wrapped_of_mem hm.hasPixels (by omega) (by omega) (by omega) (by omega),
    hw, pixelAt]

/-- A cell is that of the pixel on the screen that its point wraps around to. -/
theorem exists_pixelAt {m : Machine} (hm : m.WellFormed) (a b : Int) :
    ∃ px py : Nat, px < 64 ∧ py < 32 ∧ m.screen.wrapped a b = m.screen.wrapped px py := by
  obtain ⟨hw, hh⟩ := hm.screen_size
  refine ⟨(a % 64).toNat, (b % 32).toNat, by omega, by omega, ?_⟩
  rw [Screen.wrapped_eq_iff hm.hasPixels, hw, hh]
  constructor <;> omega

theorem pixelAt_drawn {m : Machine} (hm : m.WellFormed) (x y n : Fin 16) {px py : Nat}
    (hx : px < 64) (hy : py < 32) :
    (m.drawn x y n.val).pixelAt px py =
      m.pixelAt px py ^^^ (m.spriteBit x y n.val px py).toUInt8 := by
  have hcell : (m.screen.flips (m.sprite x y n.val)).cell px py = _ :=
    Screen.cell_flips_of_apart hm.hasPixels (sprite_apart hm x y n) px py
  rw [pixelAt_eq_cell (hm.drawn x y n.val) hx hy, pixelAt_eq_cell hm hx hy]
  refine hcell.trans ?_
  simp only [covered_iff hm x y n.val px py n.isLt]
  cases m.spriteBit x y n.val px py with
  | false => exact UInt8.xor_zero.symm
  | true => rfl

/-- A sprite hits a set pixel iff drawing it clears one. -/
theorem hits_sprite_iff {m : Machine} (hm : m.WellFormed) (x y n : Fin 16) :
    true ∈ m.screen.hits (m.sprite x y n.val) ↔ m.Clears (m.drawn x y n.val) := by
  rw [Screen.mem_hits_of_apart hm.hasPixels (sprite_apart hm x y n)]
  constructor
  · rintro ⟨p, hp, hset⟩
    obtain ⟨px, py, hx, hy, he⟩ := exists_pixelAt hm p.1 p.2
    have hbit := (covered_iff hm x y n.val px py n.isLt).1 ⟨p, hp, he⟩
    have hone : m.pixelAt px py = 1 := by
      rw [Screen.cell, he] at hset
      rw [pixelAt_eq_cell hm hx hy]
      exact (hm.screen_bits _).resolve_left hset
    refine ⟨px, py, hx, hy, hone, ?_⟩
    rw [pixelAt_drawn hm x y n hx hy, hone, hbit]
    rfl
  · rintro ⟨px, py, hx, hy, hone, hzero⟩
    rw [pixelAt_drawn hm x y n hx hy, hone] at hzero
    have hbit : m.spriteBit x y n.val px py = true := by
      cases hb : m.spriteBit x y n.val px py with
      | false =>
        rw [hb] at hzero
        exact absurd hzero (by decide)
      | true => rfl
    obtain ⟨p, hp, he⟩ := (covered_iff hm x y n.val px py n.isLt).2 hbit
    refine ⟨p, hp, ?_⟩
    rw [pixelAt_eq_cell hm hx hy] at hone
    rw [Screen.cell, he]
    rw [Screen.cell] at hone
    rw [hone]
    decide

end Machine

/-- **Drawing.** A sprite flips each pixel at which it has a set bit and no other. The flag register
tells whether a pixel was cleared, also where it names a coordinate of the sprite. A redraw is due
afterwards, and nothing else changes. -/
theorem Instr.exec_draw_pixels {m : Machine} (hm : m.WellFormed) {i : Instr} (hk : i.kind = .draw)
    (h : Host) :
    ∃ m', i.exec m h = .ok (m', { h with presenter.redrawPending := true }) ∧
      (∀ px py, px < 64 → py < 32 →
        m'.pixelAt px py = m.pixelAt px py ^^^ (m.spriteBit i.x i.y i.n.val px py).toUInt8) ∧
      (m'.reg flagRegister = 1 ∧ m.Clears m' ∨ m'.reg flagRegister = 0 ∧ ¬ m.Clears m') ∧
      (∀ r, r ≠ flagRegister → m'.reg r = m.reg r) ∧
      m'.memory = m.memory ∧ m'.index = m.index ∧ m'.ip = m.ip ∧ m'.stack = m.stack ∧
      m'.delay = m.delay ∧ m'.sound = m.sound ∧ m'.opcode = m.opcode := by
  refine ⟨m.drawn i.x i.y i.n.val, ?_, ?_, ?_, ?_, rfl, rfl, rfl, rfl, rfl, rfl, rfl⟩
  · simp only [exec, hk, Machine.draw_eq hm.memory_size hm.hasPixels]
    rfl
  · intro px py hx hy
    exact Machine.pixelAt_drawn hm i.x i.y i.n hx hy
  · have hhits := Machine.hits_sprite_iff hm i.x i.y i.n
    rw [← hhits, Machine.drawn, Machine.reg_setReg, if_pos rfl]
    simp only [List.contains_iff_mem]
    split
    · rename_i hmem
      exact .inl ⟨rfl, hmem⟩
    · rename_i hmem
      exact .inr ⟨rfl, hmem⟩
  · intro r hr
    rw [Machine.drawn, Machine.reg_setReg, if_neg hr.symm]
    rfl

/-- The place of a sprite may be in the flag register, its rows at both ends of memory, and its
pixels on both sides of the corners of the screen. -/
theorem Instr.exec_draw_pixels_around :
    let m := ({ Machine.booted with index := 0xFFE } : Machine).setReg flagRegister 62
    let i := Instr.ofKind .draw 0xDFF5
    m.WellFormed ∧ i.kind = .draw ∧ ∃ m' h', i.exec m .still = .ok (m', h') ∧
      m'.pixelAt 1 0 = 1 ∧ m'.pixelAt 2 0 = 0 ∧ m'.reg flagRegister = 0 := by
  intro m i
  have hm : m.WellFormed := (Machine.wellFormed_booted.setIndex (by decide)).setReg _ _
  have hclear : ∀ px py, m.pixelAt px py = 0 := fun px py => Memory.get_zeros _ _
  refine ⟨hm, rfl, ?_⟩
  obtain ⟨m', hexec, hpixels, hflag, -⟩ := exec_draw_pixels hm (i := i) rfl .still
  refine ⟨m', _, hexec, ?_, ?_, ?_⟩
  · rw [hpixels 1 0 (by decide) (by decide)]
    decide +kernel
  · rw [hpixels 2 0 (by decide) (by decide)]
    decide +kernel
  · obtain ⟨-, px, py, -, -, hset, -⟩ | ⟨hzero, -⟩ := hflag
    · rw [hclear] at hset
      cases hset
    · exact hzero

end Chip8
