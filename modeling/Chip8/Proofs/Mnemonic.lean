import Chip8.Emulator
import Chip8.Proofs.Exec
import Chip8.Proofs.HexField
import Chip8.Proofs.Host
import Mathlib.Data.List.Nodup

/-!
# Mnemonics

A mnemonic tells the kind of its instruction and the operands that stand in it, and what an
instruction does depends on just these.

* `Kind.named`: the operands that stand in the mnemonic of a kind.
* `Kind.frame`, `Kind.frame_injective`: what a mnemonic has beside fields tells the kind.
* `Separated`, `get_eq_of_render_eq`: fields with other text between them tell their operands.
* `Kind.text_eq_iff`: which mnemonics are alike.
* `Instr.exec_congr`, `Kind.reads_iff`: an instruction reads the operands that are named, and no
  other.
* `Kind.text_identifies`: all of it.
-/

namespace Chip8

open Hex (fieldChars Stops)

/-- The operand that a part of a mnemonic shows. -/
def Piece.operand? : Piece → Option Operand
  | .text _ => none
  | .operand s => some s

/-- What a part of a mnemonic has beside the characters of fields. -/
def Piece.frame : Piece → List Char
  | .text s => s.toList.filter (· ∉ fieldChars)
  | .operand _ => []

/-- The operands that stand in the mnemonic of a kind. -/
def Kind.named (k : Kind) : List Operand := k.template.filterMap Piece.operand?

/-- What the mnemonics of a kind have beside the characters of fields. -/
def Kind.frame (k : Kind) : List Char := k.template.flatMap Piece.frame

/-- The characters of the parts of a mnemonic. -/
def Piece.renderAll (o : Operands) (ps : List Piece) : List Char :=
  ps.flatMap fun p => (p.render o).toList

variable {k l : Kind} {o p : Operands}

theorem Kind.toList_text (k : Kind) (o : Operands) :
    (k.text o).toList = Piece.renderAll o k.template := by
  rw [text, String.toList_join, List.flatMap_map]
  rfl

theorem Kind.mem_named {s : Operand} : s ∈ k.named ↔ .operand s ∈ k.template := by
  rw [named, List.mem_filterMap]
  constructor
  · rintro ⟨_ | s', hmem, hs⟩
    · cases hs
    · cases hs
      exact hmem
  · exact fun h => ⟨.operand s, h, rfl⟩

/-! ## The kind -/

theorem Piece.filter_render (o : Operands) (q : Piece) :
    (q.render o).toList.filter (· ∉ fieldChars) = q.frame := by
  cases q with
  | text s => rfl
  | operand s =>
    refine List.filter_eq_nil_iff.2 fun c hc => ?_
    rw [Piece.render, Hex.toList_padded] at hc
    simpa using Hex.mem_paddedChars hc

theorem Kind.filter_text (k : Kind) (o : Operands) :
    (k.text o).toList.filter (· ∉ fieldChars) = k.frame := by
  rw [toList_text, Piece.renderAll, List.filter_flatMap]
  simp only [Piece.filter_render]
  rfl

theorem Kind.frame_injective : Function.Injective Kind.frame := by
  have hnodup : (Kind.all.map Kind.frame).Nodup := by decide +kernel
  intro k l h
  exact List.inj_on_of_nodup_map hnodup (mem_all k) (mem_all l) h

/-! ## The operands -/

/-- The rest of a mnemonic ends a field: there is none, or it begins with a character that fields do
not have. -/
def Ends : List Piece → Prop
  | [] => True
  | .text s :: _ => s ≠ "" ∧ Stops s.toList
  | .operand _ :: _ => False

/-- Each field ends before the next part of a mnemonic. -/
def Separated : List Piece → Prop
  | [] => True
  | .text _ :: ps => Separated ps
  | .operand _ :: ps => Ends ps ∧ Separated ps

instance : (ps : List Piece) → Decidable (Ends ps)
  | [] => inferInstanceAs (Decidable True)
  | .text s :: _ => inferInstanceAs (Decidable (s ≠ "" ∧ Stops s.toList))
  | .operand _ :: _ => inferInstanceAs (Decidable False)

instance decidableSeparated : (ps : List Piece) → Decidable (Separated ps)
  | [] => inferInstanceAs (Decidable True)
  | .text _ :: ps => decidableSeparated ps
  | .operand _ :: ps =>
    have := decidableSeparated ps
    inferInstanceAs (Decidable (Ends ps ∧ Separated ps))

theorem Kind.separated_template (k : Kind) : Separated k.template := by
  cases k <;> decide

theorem Ends.stops {ps : List Piece} (h : Ends ps) (o : Operands) :
    Stops (Piece.renderAll o ps) := by
  cases ps with
  | nil => exact Hex.stops_nil
  | cons q ps =>
    cases q with
    | operand s => exact h.elim
    | text s =>
      obtain ⟨hne, hstops⟩ := h
      rw [Piece.renderAll, List.flatMap_cons, Piece.render]
      exact hstops.append (fun h => hne (String.toList_eq_nil_iff.1 h)) _

/-- Mnemonics of one form are alike only if their operands are. -/
theorem get_eq_of_render_eq {ps : List Piece} (hps : Separated ps)
    (h : Piece.renderAll o ps = Piece.renderAll p ps) {s : Operand} (hs : .operand s ∈ ps) :
    o.get s = p.get s := by
  induction ps with
  | nil => cases hs
  | cons q ps ih =>
    rw [Piece.renderAll, Piece.renderAll, List.flatMap_cons, List.flatMap_cons] at h
    cases q with
    | text t => exact ih hps (List.append_cancel_left h) ((List.mem_cons.1 hs).resolve_left nofun)
    | operand t =>
      obtain ⟨hends, hseparated⟩ := hps
      simp only [Piece.render, Hex.toList_padded] at h
      obtain ⟨hvalue, hrest⟩ :=
        Hex.paddedChars_append_inj (hends.stops o) (hends.stops p) h
      obtain hs | hs := List.mem_cons.1 hs
      · cases hs
        exact hvalue
      · exact ih hseparated hrest hs

theorem Piece.renderAll_congr {ps : List Piece} (h : ∀ s, .operand s ∈ ps → o.get s = p.get s) :
    Piece.renderAll o ps = Piece.renderAll p ps := by
  refine List.flatMap_congr fun q hq => ?_
  cases q with
  | text t => rfl
  | operand s => rw [Piece.render, Piece.render, h s hq]

/-- Mnemonics are alike iff they are of one kind and have the same operands in them. -/
theorem Kind.text_eq_iff :
    k.text o = l.text p ↔ k = l ∧ ∀ s ∈ k.named, o.get s = p.get s := by
  constructor
  · intro h
    have hkl : k = l := by
      refine frame_injective ?_
      rw [← filter_text k o, ← filter_text l p, h]
    subst hkl
    rw [← String.toList_inj, toList_text, toList_text] at h
    exact ⟨rfl, fun s hs => get_eq_of_render_eq k.separated_template h (mem_named.1 hs)⟩
  · rintro ⟨rfl, h⟩
    rw [← String.toList_inj, toList_text, toList_text]
    exact Piece.renderAll_congr fun s hs => h s (mem_named.2 hs)

/-! ## What an instruction reads -/

/-- Two instructions have the same value for a slice. -/
def Instr.SameSlice (i j : Instr) : Operand → Prop
  | .x => i.x = j.x
  | .y => i.y = j.y
  | .n => i.n = j.n
  | .kk => i.kk = j.kk
  | .nnn => i.nnn = j.nnn

theorem Instr.get_eq_iff {i j : Instr} {s : Operand} :
    i.operands.get s = j.operands.get s ↔ i.SameSlice j s := by
  cases s <;> simp [Instr.operands, Operands.get, SameSlice, Fin.ext_iff, UInt8.toNat_inj]

/-- An instruction does what another of its kind does that has the same operands in its mnemonic. -/
theorem Instr.exec_congr {i j : Instr} (hk : i.kind = j.kind)
    (h : ∀ s ∈ i.kind.named, i.operands.get s = j.operands.get s) (m : Machine) (host : Host) :
    i.exec m host = j.exec m host := by
  obtain ⟨k, x, y, n, kk, nnn⟩ := i
  obtain ⟨k', x', y', n', kk', nnn'⟩ := j
  cases hk
  have hsame : ∀ s ∈ k.named, SameSlice ⟨k, x, y, n, kk, nnn⟩ ⟨k, x', y', n', kk', nnn'⟩ s :=
    fun s hs => get_eq_iff.1 (h s hs)
  cases k with
  | idle | cls | ret => rfl
  | jump | call | loadIndex | jumpOffset =>
    obtain rfl : nnn = nnn' := hsame .nnn (by decide)
    rfl
  | skipEqByte | skipNeByte | loadByte | addByte | random =>
    obtain rfl : x = x' := hsame .x (by decide)
    obtain rfl : kk = kk' := hsame .kk (by decide)
    rfl
  | skipEqReg | skipNeReg | copy | or | and | xor | add | sub | subFrom =>
    obtain rfl : x = x' := hsame .x (by decide)
    obtain rfl : y = y' := hsame .y (by decide)
    rfl
  | draw =>
    obtain rfl : x = x' := hsame .x (by decide)
    obtain rfl : y = y' := hsame .y (by decide)
    obtain rfl : n = n' := hsame .n (by decide)
    rfl
  | shiftRight | shiftLeft | skipKeyHeld | skipKeyFree | readDelay | waitKey | setDelay | setSound
  | addIndex | loadGlyph | storeDecimal | storeRegs | loadRegs =>
    obtain rfl : x = x' := hsame .x (by decide)
    rfl

/-- What instructions of a kind do depends on an operand: two of them that differ in that operand
only differ in what they do to a well-formed machine. -/
def Kind.Reads (k : Kind) (s : Operand) : Prop :=
  ∃ i j : Instr, i.kind = k ∧ j.kind = k ∧ (∀ t, t ≠ s → i.operands.get t = j.operands.get t) ∧
    ∃ m host, m.WellFormed ∧ i.exec m host ≠ j.exec m host

theorem Kind.Reads.mem_named {s : Operand} (h : k.Reads s) : s ∈ k.named := by
  obtain ⟨i, j, rfl, hj, hagree, m, host, -, hne⟩ := h
  by_contra hs
  refine hne (Instr.exec_congr hj.symm (fun t ht => hagree t ?_) m host)
  rintro rfl
  exact hs ht

namespace Probe

/-- A machine on which each operand makes a difference: one of its registers differs from the others
in every bit, and one pixel is set on its screen, which a glyph that is drawn where those others
point ends at. -/
def machine : Machine :=
  { Machine.booted with
    v := (Vector.replicate 16 0x21).set 3 0xDE
    delay := 7
    screen := Machine.booted.screen.flips [(0x24, 0x21)] }

theorem wellFormed_machine : machine.WellFormed :=
  { Machine.wellFormed_booted with
    delay_bounds := by decide
    screen_width := Screen.width_flips ..
    screen_height := Screen.height_flips ..
    screen_bits := Screen.Binary.flips Machine.wellFormed_booted.screen_bits _ }

/-- A host on which the key is held to which those others point, with every bit set in its random
values. -/
def host : Host :=
  { Host.still with
    keypad := Host.still.keypad.setHeld (lowNibble 0x21) true
    random := { values := fun _ => 0xFF } }

/-- An instruction of a kind. -/
def instr (k : Kind) : Instr := Instr.ofKind k 0x0121

/-- An instruction of the kind that has another value for each slice. -/
def other (k : Kind) : Instr := Instr.ofKind k 0x0330

/-- The first instruction with a slice of the second. -/
def changed (k : Kind) : Operand → Instr
  | .x => { instr k with x := (other k).x }
  | .y => { instr k with y := (other k).y }
  | .n => { instr k with n := (other k).n }
  | .kk => { instr k with kk := (other k).kk }
  | .nnn => { instr k with nnn := (other k).nnn }

/-- What can be seen of the outcome of an instruction without going through all of memory and the
screen. -/
def glance : Except Fault (Machine × Host) → List Int × List UInt8 × List UInt8
  | .error _ => ([], [], [])
  | .ok (m, _) =>
    ([m.index, m.ip, m.delay, m.sound], m.v.toList, [m.memory.get 0, m.memory.get 2])

theorem get_changed (k : Kind) {s t : Operand} (h : t ≠ s) :
    (instr k).operands.get t = (changed k s).operands.get t := by
  cases s <;> cases t <;> first | rfl | exact absurd rfl h

theorem glance_ne : ∀ k ∈ Kind.all, ∀ s ∈ k.named,
    glance ((instr k).exec machine host) ≠ glance ((changed k s).exec machine host) := by
  decide +kernel

end Probe

/-- An operand stands in the mnemonic of a kind iff what its instructions do depends on it. -/
theorem Kind.reads_iff {s : Operand} : k.Reads s ↔ s ∈ k.named := by
  refine ⟨Reads.mem_named, fun hs => ?_⟩
  have hkind : (Probe.changed k s).kind = k := by cases s <;> rfl
  refine ⟨Probe.instr k, _, rfl, hkind, fun t => Probe.get_changed k, Probe.machine, Probe.host,
    Probe.wellFormed_machine, fun h => ?_⟩
  exact Probe.glance_ne k (mem_all k) s hs (congrArg Probe.glance h)

/-! ## Mnemonics and effects -/

theorem Instr.text_eq_iff {i j : Instr} :
    i.text = j.text ↔
      i.kind = j.kind ∧ ∀ s ∈ i.kind.named, i.operands.get s = j.operands.get s := Kind.text_eq_iff

/-- Instructions with one mnemonic have one effect. -/
theorem Instr.exec_of_text_eq {i j : Instr} (h : i.text = j.text) : i.exec = j.exec := by
  obtain ⟨hk, hoperands⟩ := text_eq_iff.1 h
  funext m host
  exact exec_congr hk hoperands m host

theorem Emulator.execute_of_text_eq {i j : Instr} (h : i.text = j.text) (e : Emulator)
    (owner : Nat) : e.execute ⟨i, owner⟩ = e.execute ⟨j, owner⟩ := by
  simp only [execute, trace, perform, h, Instr.exec_of_text_eq h]

/-- **Mnemonics.** Whatever their operands, two instructions have one mnemonic iff they are of one
kind and have the same operands in it. The operands in the mnemonic of a kind are those that its
instructions read. So two instructions with one mnemonic have one effect, on every machine with
every host and within every emulator, and two with different mnemonics are of different kinds or
differ in an operand that is read. -/
theorem Kind.text_identifies :
    (∀ (k l : Kind) (o p : Operands),
      k.text o = l.text p ↔ k = l ∧ ∀ s ∈ k.named, o.get s = p.get s) ∧
    (∀ (k : Kind) (s : Operand), k.Reads s ↔ s ∈ k.named) ∧
    ∀ i j : Instr,
      (i.text = j.text → (∀ m host, i.exec m host = j.exec m host) ∧
        ∀ (e : Emulator) (owner : Nat), e.execute ⟨i, owner⟩ = e.execute ⟨j, owner⟩) ∧
      (i.text ≠ j.text → i.kind ≠ j.kind ∨
        ∃ s, i.kind.Reads s ∧ i.operands.get s ≠ j.operands.get s) := by
  refine ⟨fun _ _ _ _ => text_eq_iff, fun _ _ => reads_iff, fun i j => ⟨fun h => ?_, fun h => ?_⟩⟩
  · exact ⟨fun m host => by rw [Instr.exec_of_text_eq h], Emulator.execute_of_text_eq h⟩
  · by_contra hsame
    push Not at hsame
    obtain ⟨hkind, hoperands⟩ := hsame
    exact h (Instr.text_eq_iff.2 ⟨hkind, fun s hs => hoperands s (reads_iff.2 hs)⟩)

-- A shift does not look at its third nibble, and a comparison of registers not at its last.
example : [0x8126, 0x81F6, 0x5120, 0x512F].map (fun w => (Instr.ofWord? w).map Instr.text) =
    [some "SHR V1", some "SHR V1", some "SE V1, V2", some "SE V1, V2"] := by decide +kernel

end Chip8
