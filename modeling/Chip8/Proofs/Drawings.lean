import Chip8.Proofs.Sprite

/-!
# Sprites drawn one after another

Drawing a sprite flips pixels and writes the flag register. So sprites whose places are not in that
register do not get in each other's way: they may be drawn in any order, and to draw them once more
takes them off the screen again.

* `Instr.execAll`: instructions in order.
* `Instr.Draws`: instructions that draw a sprite whose place is not in the flag register.
* `Instr.execAll_draws`: the screen after such instructions.
* `Machine.flag_drawn_iff`, `Machine.flag_redrawn_iff`: when a sprite that is drawn, and drawn
  again, hits a set pixel.
* `Instr.draws_commute`: the order of sprites, sprites that are drawn twice, and the flags of both
  times.
-/

namespace Chip8

namespace Instr

/-- Instructions carried out in order, until one fails. -/
def execAll : List Instr → Machine → Host → Except Fault (Machine × Host)
  | [], m, h => .ok (m, h)
  | i :: is, m, h =>
    match i.exec m h with
    | .error f => .error f
    | .ok (m', h') => execAll is m' h'

/-- The instruction draws a sprite whose place is not in the flag register. -/
structure Draws (i : Instr) : Prop where
  /-- It draws. -/
  kind : i.kind = .draw
  /-- The column is in another register. -/
  x_ne : i.x ≠ flagRegister
  /-- The row is in another register. -/
  y_ne : i.y ≠ flagRegister

end Instr

namespace Machine

variable {m : Machine} {x y : Fin 16}

/-! ## Sprites after a drawing -/

theorem reg_drawn {r : Fin 16} (hr : r ≠ flagRegister) (m : Machine) (x y : Fin 16) (n : Nat) :
    (m.drawn x y n).reg r = m.reg r := by
  rw [drawn, reg_setReg, if_neg hr.symm]
  rfl

/-- A drawing leaves the sprites whose places are not in the flag register. -/
theorem sprite_drawn (hx : x ≠ flagRegister) (hy : y ≠ flagRegister) (m : Machine) (u v : Fin 16)
    (k n : Nat) : (m.drawn u v k).sprite x y n = m.sprite x y n := by
  rw [sprite, sprite, reg_drawn hx, reg_drawn hy]
  rfl

theorem spriteBit_drawn (hx : x ≠ flagRegister) (hy : y ≠ flagRegister) (m : Machine)
    (u v : Fin 16) (k n px py : Nat) :
    (m.drawn u v k).spriteBit x y n px py = m.spriteBit x y n px py := by
  rw [spriteBit, spriteBit, reg_drawn hx, reg_drawn hy]
  rfl

/-! ## Hits -/

theorem pixelAt_bit (hm : m.WellFormed) (px py : Nat) : m.pixelAt px py = 0 ∨ m.pixelAt px py = 1 :=
  hm.screen_bits _

/-- The flag is set iff a set bit of the sprite lands on a set pixel. -/
theorem flag_drawn_iff (hm : m.WellFormed) (x y n : Fin 16) :
    (m.drawn x y n.val).reg flagRegister = 1 ↔
      ∃ px py, px < 64 ∧ py < 32 ∧ m.spriteBit x y n.val px py = true ∧ m.pixelAt px py = 1 := by
  have hflag : (m.drawn x y n.val).reg flagRegister = 1 ↔ m.Clears (m.drawn x y n.val) := by
    rw [← hits_sprite_iff hm, drawn, reg_setReg, if_pos rfl]
    simp only [List.contains_iff_mem]
    split
    · rename_i hmem
      exact ⟨fun _ => hmem, fun _ => rfl⟩
    · rename_i hmem
      exact ⟨fun h => absurd h (by decide), fun h => absurd h hmem⟩
  rw [hflag]
  constructor
  · rintro ⟨px, py, hpx, hpy, hone, hzero⟩
    refine ⟨px, py, hpx, hpy, ?_, hone⟩
    rw [pixelAt_drawn hm x y n hpx hpy, hone] at hzero
    cases hbit : m.spriteBit x y n.val px py with
    | false =>
      rw [hbit] at hzero
      exact absurd hzero (by decide)
    | true => rfl
  · rintro ⟨px, py, hpx, hpy, hbit, hone⟩
    refine ⟨px, py, hpx, hpy, hone, ?_⟩
    rw [pixelAt_drawn hm x y n hpx hpy, hone, hbit]
    rfl

/-- When a sprite is drawn again the flag is set iff a set bit landed on a clear pixel at first. -/
theorem flag_redrawn_iff (hm : m.WellFormed) (hx : x ≠ flagRegister) (hy : y ≠ flagRegister)
    (n : Fin 16) :
    ((m.drawn x y n.val).drawn x y n.val).reg flagRegister = 1 ↔
      ∃ px py, px < 64 ∧ py < 32 ∧ m.spriteBit x y n.val px py = true ∧ m.pixelAt px py = 0 := by
  rw [flag_drawn_iff (hm.drawn x y n.val)]
  have hpixel : ∀ {px py : Nat}, px < 64 → py < 32 → m.spriteBit x y n.val px py = true →
      ((m.drawn x y n.val).pixelAt px py = 1 ↔ m.pixelAt px py = 0) := by
    intro px py hpx hpy hbit
    rw [pixelAt_drawn hm x y n hpx hpy, hbit]
    obtain hzero | hone := pixelAt_bit hm px py
    · rw [hzero]
      decide
    · rw [hone]
      decide
  constructor
  · rintro ⟨px, py, hpx, hpy, hbit, hone⟩
    rw [spriteBit_drawn hx hy] at hbit
    exact ⟨px, py, hpx, hpy, hbit, (hpixel hpx hpy hbit).1 hone⟩
  · rintro ⟨px, py, hpx, hpy, hbit, hzero⟩
    refine ⟨px, py, hpx, hpy, ?_, (hpixel hpx hpy hbit).2 hzero⟩
    rwa [spriteBit_drawn hx hy]

/-- A byte that is not zero has a set bit. -/
private theorem exists_testBit {b : UInt8} (hb : b ≠ 0) : ∃ k < 8, b.toNat.testBit k = true := by
  have hne : b.toNat ≠ 0 := fun h => hb (UInt8.toNat_inj.1 h)
  obtain ⟨k, hk⟩ := Nat.exists_testBit_of_ne_zero hne
  refine ⟨k, Nat.lt_of_not_le fun hge => ?_, hk⟩
  have hlt : b.toNat < 2 ^ k :=
    Nat.lt_of_lt_of_le b.toNat_lt (Nat.pow_le_pow_right (by decide) hge)
  rw [Nat.testBit_lt_two_pow hlt] at hk
  cases hk

/-- A set bit of a sprite lands on some pixel. -/
theorem exists_spriteBit (m : Machine) (x y n : Fin 16) {row : Nat} (hrow : row < n.val)
    (hbyte : m.byteAt (m.index + row) ≠ 0) :
    ∃ px py, px < 64 ∧ py < 32 ∧ m.spriteBit x y n.val px py = true := by
  obtain ⟨k, hk, hbit⟩ := exists_testBit hbyte
  refine ⟨((m.reg x).toNat + (7 - k)) % 64, ((m.reg y).toNat + row) % 32, by omega, by omega, ?_⟩
  have hcol : ((((m.reg x).toNat + (7 - k)) % 64 : Nat) - (m.reg x).toNat : Int) % 64 =
      (7 - k : Nat) := by omega
  have hrow' : ((((m.reg y).toNat + row) % 32 : Nat) - (m.reg y).toNat : Int) % 32 = row := by omega
  have hk' : 7 - (7 - k) = k := by omega
  simp only [spriteBit, hcol, hrow', Int.toNat_natCast, hk', hbit, Bool.and_true, Bool.and_eq_true,
    decide_eq_true_eq]
  omega

end Machine

/-! ## Drawings in order -/

namespace Instr

variable {m : Machine}

theorem exec_draw (hm : m.WellFormed) {i : Instr} (hk : i.kind = .draw) (h : Host) :
    i.exec m h =
      .ok (m.drawn i.x i.y i.n.val, { h with presenter := h.presenter.requestRedraw }) := by
  simp only [exec, hk, Machine.draw_eq hm.memory_size hm.hasPixels]
  rfl

/-- The points that sprites flip, one sprite after the other. -/
def points (m : Machine) (is : List Instr) : List (Int × Int) :=
  is.flatMap fun i => m.sprite i.x i.y i.n.val

theorem points_cons (m : Machine) (i : Instr) (is : List Instr) :
    points m (i :: is) = m.sprite i.x i.y i.n.val ++ points m is := List.flatMap_cons

theorem points_drawn {is : List Instr} (his : ∀ i ∈ is, i.Draws) (m : Machine) (x y : Fin 16)
    (n : Nat) : points (m.drawn x y n) is = points m is := by
  rw [points, points, List.flatMap_def, List.flatMap_def]
  refine congrArg List.flatten (List.map_congr_left fun i hi => ?_)
  exact Machine.sprite_drawn (his i hi).x_ne (his i hi).y_ne m x y n _

theorem points_of_perm (m : Machine) {is js : List Instr} (h : is.Perm js) :
    (points m is).Perm (points m js) := h.flatMap_right _

/-- Sprites drawn in order flip the points that each of them would flip on the first screen. -/
theorem execAll_draws (hm : m.WellFormed) {is : List Instr} (his : ∀ i ∈ is, i.Draws) (h : Host) :
    ∃ m' h', execAll is m h = .ok (m', h') ∧ m'.WellFormed ∧
      m'.screen = m.screen.flips (points m is) ∧
      ∀ js : List Instr, (∀ j ∈ js, j.Draws) → points m' js = points m js := by
  induction is generalizing m h with
  | nil => exact ⟨m, h, rfl, hm, rfl, fun _ _ => rfl⟩
  | cons i is ih =>
    rw [List.forall_mem_cons] at his
    obtain ⟨m', h', hrest, hm', hscreen, hpoints⟩ := ih (hm.drawn i.x i.y i.n.val) his.2
      { h with presenter := h.presenter.requestRedraw }
    refine ⟨m', h', ?_, hm', ?_, ?_⟩
    · rw [execAll, exec_draw hm his.1.kind]
      exact hrest
    · rw [hscreen, points_drawn his.2, points_cons, Screen.flips_append]
      rfl
    · intro js hjs
      rw [hpoints js hjs, points_drawn hjs]

/-- **Sprites over each other.** Sprites whose places are not in the flag register give one screen
in whatever order they are drawn, and drawn once more, in any order, they give the first screen
back. If one of them is drawn twice, the flag tells at first whether a set bit of it landed on a set
pixel, and then whether one had landed on a clear pixel; so a sprite that is not blank is reported
at least once. -/
theorem draws_commute (hm : m.WellFormed) (h : Host) :
    (∀ is js : List Instr, (∀ i ∈ is, i.Draws) → is.Perm js →
      ∃ m₁ h₁ m₂ h₂ m₃ h₃, execAll is m h = .ok (m₁, h₁) ∧ execAll js m h = .ok (m₂, h₂) ∧
        execAll (is ++ js) m h = .ok (m₃, h₃) ∧ m₂.screen = m₁.screen ∧ m₃.screen = m.screen) ∧
    ∀ i : Instr, i.Draws →
      ∃ m₁ h₁ m₂ h₂, i.exec m h = .ok (m₁, h₁) ∧ i.exec m₁ h₁ = .ok (m₂, h₂) ∧
        (m₁.reg flagRegister = 1 ↔ ∃ px py, px < 64 ∧ py < 32 ∧
          m.spriteBit i.x i.y i.n.val px py = true ∧ m.pixelAt px py = 1) ∧
        (m₂.reg flagRegister = 1 ↔ ∃ px py, px < 64 ∧ py < 32 ∧
          m.spriteBit i.x i.y i.n.val px py = true ∧ m.pixelAt px py = 0) ∧
        ((∃ row : Nat, row < i.n.val ∧ m.byteAt (m.index + row) ≠ 0) →
          m₁.reg flagRegister = 1 ∨ m₂.reg flagRegister = 1) := by
  refine ⟨fun is js his hperm => ?_, fun i hi => ?_⟩
  · have hjs : ∀ j ∈ js, j.Draws := fun j hj => his j (hperm.mem_iff.2 hj)
    have hboth : ∀ i ∈ is ++ js, i.Draws := by
      intro i hi
      exact (List.mem_append.1 hi).elim (his i) (hjs i)
    obtain ⟨m₁, h₁, hexec₁, -, hscreen₁, -⟩ := execAll_draws hm his h
    obtain ⟨m₂, h₂, hexec₂, -, hscreen₂, -⟩ := execAll_draws hm hjs h
    obtain ⟨m₃, h₃, hexec₃, -, hscreen₃, -⟩ := execAll_draws hm hboth h
    have hpoints := points_of_perm m hperm
    refine ⟨m₁, h₁, m₂, h₂, m₃, h₃, hexec₁, hexec₂, hexec₃, ?_, ?_⟩
    · rw [hscreen₁, hscreen₂, Screen.flips_of_perm hm.hasPixels hpoints]
    · rw [hscreen₃, points, List.flatMap_append, Screen.flips_append]
      exact Screen.flips_flips_of_perm hm.hasPixels hpoints
  · have hm' := hm.drawn i.x i.y i.n.val
    have hfirst := Machine.flag_drawn_iff hm i.x i.y i.n
    have hsecond := Machine.flag_redrawn_iff hm hi.x_ne hi.y_ne i.n
    refine ⟨_, _, _, _, exec_draw hm hi.kind h, exec_draw hm' hi.kind _, hfirst, hsecond, ?_⟩
    rintro ⟨row, hrow, hbyte⟩
    obtain ⟨px, py, hpx, hpy, hbit⟩ := m.exists_spriteBit i.x i.y i.n hrow hbyte
    obtain hzero | hone := Machine.pixelAt_bit hm px py
    · exact .inr (hsecond.2 ⟨px, py, hpx, hpy, hbit, hzero⟩)
    · exact .inl (hfirst.2 ⟨px, py, hpx, hpy, hbit, hone⟩)

/-- Two glyphs that overlap around the corners of the screen, and one of them drawn twice. -/
theorem draws_commute_corner :
    let m := (Machine.booted.setReg 1 62).setReg 2 31
    let i := Instr.ofKind .draw 0xD125
    let j := Instr.ofKind .draw 0xD005
    m.WellFormed ∧ i.Draws ∧ j.Draws ∧
      (∃ m₁ h₁ m₂ h₂ m₃ h₃, execAll [i, j] m .still = .ok (m₁, h₁) ∧
        execAll [j, i] m .still = .ok (m₂, h₂) ∧
        execAll ([i, j] ++ [j, i]) m .still = .ok (m₃, h₃) ∧
        m₂.screen = m₁.screen ∧ m₃.screen = m.screen) ∧
      ∃ m₁ h₁ m₂ h₂, i.exec m .still = .ok (m₁, h₁) ∧ i.exec m₁ h₁ = .ok (m₂, h₂) ∧
        m₁.reg flagRegister ≠ 1 ∧ m₂.reg flagRegister = 1 := by
  intro m i j
  have hm : m.WellFormed := (Machine.wellFormed_booted.setReg _ _).setReg _ _
  have hi : i.Draws := ⟨rfl, by decide, by decide⟩
  have hj : j.Draws := ⟨rfl, by decide, by decide⟩
  have hij : ∀ k ∈ [i, j], k.Draws := by
    rw [List.forall_mem_cons, List.forall_mem_singleton]
    exact ⟨hi, hj⟩
  obtain ⟨horder, htwice⟩ := draws_commute hm .still
  refine ⟨hm, hi, hj, horder [i, j] [j, i] hij (List.Perm.swap _ _ _), ?_⟩
  obtain ⟨m₁, h₁, m₂, h₂, hfirst, hsecond, hset, -, honce⟩ := htwice i hi
  have hclear : m₁.reg flagRegister ≠ 1 := by
    intro hflag
    obtain ⟨px, py, -, -, -, hone⟩ := hset.1 hflag
    have hzero : m.pixelAt px py = 0 := Memory.get_zeros _ _
    rw [hzero] at hone
    cases hone
  have hbyte : m.byteAt (m.index + (0 : Nat)) ≠ 0 := by decide +kernel
  exact ⟨m₁, h₁, m₂, h₂, hfirst, hsecond, hclear,
    (honce ⟨0, by decide, hbyte⟩).resolve_left hclear⟩

end Instr

end Chip8
