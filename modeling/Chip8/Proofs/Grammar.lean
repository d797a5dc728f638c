import Chip8.Machine.Exec
import Chip8.Proofs.Pattern
import Mathlib.Algebra.Ring.Int.Defs

/-!
# The grammar of instruction words

Which words denote an instruction, said by their nibbles, and how much of a word its instruction
keeps. Each kind has words with one first nibble only, and the address operand holds the others.

* `Grammatical`: the words that denote an instruction.
* `grammatical_iff_exists_matches`: they are the words of the kinds.
* `Kind.lead`: the first nibble of a kind's words.
* `Machine.decode_ok_iff`, `Machine.decode_of_not_grammatical`: what is read, and what is refused.
* `Machine.decode_grammar`: what is read from a number, and which numbers it is read from.
-/

namespace Chip8

/-- The words that denote an instruction. All words with some first nibbles do; with others it
depends on the last nibble, the last byte or the whole word. -/
def Grammatical (w : Nat) : Prop :=
  w = 0x00E0 ∨ w = 0x00EE ∨
    w / 0x1000 ∈ [0x1, 0x2, 0x3, 0x4, 0x5, 0x6, 0x7, 0x9, 0xA, 0xB, 0xC, 0xD] ∨
    (w / 0x1000 = 0x8 ∧ w % 0x10 ∈ [0x0, 0x1, 0x2, 0x3, 0x4, 0x5, 0x6, 0x7, 0xE]) ∨
    (w / 0x1000 = 0xE ∧ w % 0x100 ∈ [0x9E, 0xA1]) ∨
    (w / 0x1000 = 0xF ∧ w % 0x100 ∈ [0x07, 0x0A, 0x15, 0x18, 0x1E, 0x29, 0x33, 0x55, 0x65])

instance (w : Nat) : Decidable (Grammatical w) := by
  unfold Grammatical
  infer_instance

theorem Kind.Matches.grammatical {k : Kind} {w : Nat} (h : k.Matches w) : Grammatical w := by
  cases k <;> simp_all [Matches, Grammatical]

theorem Grammatical.exists_matches {w : Nat} (h : Grammatical w) : ∃ k : Kind, k.Matches w := by
  suffices hread : (Kind.ofWord? w).isSome by
    obtain ⟨k, hk⟩ := Option.isSome_iff_exists.1 hread
    exact ⟨k, Kind.matches_of_ofWord? hk⟩
  simp only [Grammatical, List.mem_cons, List.not_mem_nil, or_false] at h
  obtain rfl | rfl | hlead | ⟨hlead, hlast⟩ | ⟨hlead, hlast⟩ | ⟨hlead, hlast⟩ := h
  · rfl
  · rfl
  · obtain h | h | h | h | h | h | h | h | h | h | h | h := hlead <;> simp [Kind.ofWord?, h]
  · obtain h | h | h | h | h | h | h | h | h := hlast <;> simp [Kind.ofWord?, hlead, h]
  · obtain h | h := hlast <;> simp [Kind.ofWord?, hlead, h]
  · obtain h | h | h | h | h | h | h | h | h := hlast <;> simp [Kind.ofWord?, hlead, h]

/-- The grammatical words are the words of the kinds. -/
theorem grammatical_iff_exists_matches {w : Nat} : Grammatical w ↔ ∃ k : Kind, k.Matches w :=
  ⟨Grammatical.exists_matches, fun ⟨_, h⟩ => h.grammatical⟩

/-! ## The word of an instruction -/

/-- The first nibble of the words of a kind. -/
def Kind.lead : Kind → Nat
  | .idle | .cls | .ret => 0x0
  | .jump => 0x1
  | .call => 0x2
  | .skipEqByte => 0x3
  | .skipNeByte => 0x4
  | .skipEqReg => 0x5
  | .loadByte => 0x6
  | .addByte => 0x7
  | .copy | .or | .and | .xor | .add | .sub | .shiftRight | .subFrom | .shiftLeft => 0x8
  | .skipNeReg => 0x9
  | .loadIndex => 0xA
  | .jumpOffset => 0xB
  | .random => 0xC
  | .draw => 0xD
  | .skipKeyHeld | .skipKeyFree => 0xE
  | .readDelay | .waitKey | .setDelay | .setSound | .addIndex | .loadGlyph | .storeDecimal
  | .storeRegs | .loadRegs => 0xF

theorem Kind.Matches.div_eq {k : Kind} {w : Nat} (h : k.Matches w) : w / 0x1000 = k.lead := by
  cases k <;> simp only [Matches, lead] at h ⊢ <;> omega

namespace Instr

/-- The first nibble of its kind and the address of an instruction make up its word. -/
theorem lead_add_nnn {k : Kind} {w : Nat} (h : k.Matches w) :
    k.lead * 0x1000 + (ofKind k w).nnn.val = w := by
  have hlead := h.div_eq
  simp only [ofKind, Fin.val_ofNat]
  omega

/-- Each operand is as wide as its slice. -/
theorem operands_bounds (i : Instr) (o : Operand) :
    0 ≤ i.operands.get o ∧ i.operands.get o < 16 ^ o.width := by
  have hkk := i.kk.toNat_lt
  cases o <;> simp only [operands, Operands.get, Operand.width] <;> omega

end Instr

/-! ## Reading a number -/

namespace Machine

/-- A number is read by its low 16 bits. The instruction pointer moves on in any case. -/
theorem decode_eq (m : Machine) (opcode : Int) :
    m.decode opcode =
      (match Kind.ofWord? (opcode % 0x10000).toNat with
        | some k => .ok (.ofKind k (opcode % 0x10000).toNat)
        | none => .error (.decode opcode m.ip),
        { m with ip := (m.ip + 2) % 0x10000 }) := by
  cases hk : Kind.ofWord? (opcode % 0x10000).toNat <;>
    simp only [decode, Instr.ofWord?, hk, Option.map_none, Option.map_some] <;> rfl

variable {m : Machine} {opcode : Int} {i : Instr}

theorem decode_ok_iff :
    (m.decode opcode).1 = .ok i ↔
      ∃ k : Kind, k.Matches (opcode % 0x10000).toNat ∧ i = .ofKind k (opcode % 0x10000).toNat := by
  rw [decode_eq]
  simp only [← Kind.ofWord?_eq_some_iff]
  cases Kind.ofWord? (opcode % 0x10000).toNat with
  | none => simp
  | some k => simp [eq_comm]

theorem decode_of_not_grammatical (h : ¬ Grammatical (opcode % 0x10000).toNat) :
    (m.decode opcode).1 = .error (.decode opcode m.ip) := by
  rw [decode_eq]
  cases hk : Kind.ofWord? (opcode % 0x10000).toNat with
  | none => rfl
  | some k => exact absurd (Kind.matches_of_ofWord? hk).grammatical h

/-- What is read from a number tells its low 16 bits. -/
theorem word_of_decode (h : (m.decode opcode).1 = .ok i) :
    i.kind.lead * 0x1000 + i.operands.nnn = opcode % 0x10000 := by
  obtain ⟨k, hk, rfl⟩ := decode_ok_iff.1 h
  have hword := Instr.lead_add_nnn hk
  simp only [Instr.operands]
  simp only [Instr.ofKind] at hword ⊢
  omega

/-- **Reading.** An instruction is read from a number iff its low 16 bits are a grammatical word;
else the number is refused together with its address. The kind is the only one with that word, the
operands are its slices, and kind and operands make up the word. In any case the instruction pointer
moves on and nothing else of the machine changes. -/
theorem decode_grammar (m : Machine) (opcode : Int) :
    let w := (opcode % 0x10000).toNat
    (m.decode opcode).2 = { m with ip := (m.ip + 2) % 0x10000 } ∧
    ((∃ i, (m.decode opcode).1 = .ok i) ↔ Grammatical w) ∧
    (¬ Grammatical w → (m.decode opcode).1 = .error (.decode opcode m.ip)) ∧
    ∀ i, (m.decode opcode).1 = .ok i →
      (∀ k : Kind, k.Matches w ↔ k = i.kind) ∧
      (∀ o : Operand, 0 ≤ i.operands.get o ∧ i.operands.get o < 16 ^ o.width) ∧
      i.operands.nnn = 0x100 * i.operands.x + i.operands.kk ∧
      i.operands.kk = 0x10 * i.operands.y + i.operands.n ∧
      i.kind.lead * 0x1000 + i.operands.nnn = w ∧
      ∀ (m' : Machine) (opcode' : Int) (i' : Instr), (m'.decode opcode').1 = .ok i' →
        i'.kind = i.kind → i'.operands = i.operands → opcode' % 0x10000 = opcode % 0x10000 := by
  intro w
  refine ⟨by rw [decode_eq], ?_, decode_of_not_grammatical, ?_⟩
  · rw [grammatical_iff_exists_matches]
    constructor
    · rintro ⟨i, hi⟩
      obtain ⟨k, hk, -⟩ := decode_ok_iff.1 hi
      exact ⟨k, hk⟩
    · rintro ⟨k, hk⟩
      exact ⟨.ofKind k w, decode_ok_iff.2 ⟨k, hk, rfl⟩⟩
  · intro i hi
    have hword := word_of_decode hi
    obtain ⟨k, hk, rfl⟩ := decode_ok_iff.1 hi
    have hnnn := Instr.nnn_eq k (opcode % 0x10000).toNat
    have hkk := Instr.kk_eq k (opcode % 0x10000).toNat
    refine ⟨fun l => ⟨fun hl => hl.unique hk, ?_⟩, Instr.operands_bounds _, ?_, ?_, ?_, ?_⟩
    · rintro rfl
      exact hk
    · simp only [Instr.operands]
      omega
    · simp only [Instr.operands]
      omega
    · omega
    · intro m' opcode' i' hi' hkind hoperands
      rw [← hword, ← word_of_decode hi', hkind, hoperands]

end Machine

end Chip8
