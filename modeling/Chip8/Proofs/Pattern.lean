import Chip8.Instr.Decode
import Mathlib.Tactic.IntervalCases

/-!
# Patterns of instruction words

Which words a kind has, said without the order in which a reader looks at their nibbles.

* `Kind.Matches`: the words of a kind.
* `Kind.ofWord?_eq_some_iff`: reading finds the kind that a word matches.
* `Kind.lookup?`, `Kind.ofWord?_eq_lookup?`: the same by two tables and the masks of the formats.
* `Instr.ofWord?_eq_some_iff`, `Instr.ofWord?_eq_none_iff`: when a word is an instruction.
* `Instr.ofWord?_eq_lookup?`: any number is read by the two tables.
-/

namespace Chip8

namespace Kind

/-- The words of a kind. The low nibble of the two register comparisons is free, and no word denotes
the placeholder. -/
def Matches : Kind → Nat → Prop
  | .idle, _ => False
  | .cls, w => w = 0x00E0
  | .ret, w => w = 0x00EE
  | .jump, w => w / 0x1000 = 0x1
  | .call, w => w / 0x1000 = 0x2
  | .skipEqByte, w => w / 0x1000 = 0x3
  | .skipNeByte, w => w / 0x1000 = 0x4
  | .skipEqReg, w => w / 0x1000 = 0x5
  | .loadByte, w => w / 0x1000 = 0x6
  | .addByte, w => w / 0x1000 = 0x7
  | .copy, w => w / 0x1000 = 0x8 ∧ w % 0x10 = 0x0
  | .or, w => w / 0x1000 = 0x8 ∧ w % 0x10 = 0x1
  | .and, w => w / 0x1000 = 0x8 ∧ w % 0x10 = 0x2
  | .xor, w => w / 0x1000 = 0x8 ∧ w % 0x10 = 0x3
  | .add, w => w / 0x1000 = 0x8 ∧ w % 0x10 = 0x4
  | .sub, w => w / 0x1000 = 0x8 ∧ w % 0x10 = 0x5
  | .shiftRight, w => w / 0x1000 = 0x8 ∧ w % 0x10 = 0x6
  | .subFrom, w => w / 0x1000 = 0x8 ∧ w % 0x10 = 0x7
  | .shiftLeft, w => w / 0x1000 = 0x8 ∧ w % 0x10 = 0xE
  | .skipNeReg, w => w / 0x1000 = 0x9
  | .loadIndex, w => w / 0x1000 = 0xA
  | .jumpOffset, w => w / 0x1000 = 0xB
  | .random, w => w / 0x1000 = 0xC
  | .draw, w => w / 0x1000 = 0xD
  | .skipKeyHeld, w => w / 0x1000 = 0xE ∧ w % 0x100 = 0x9E
  | .skipKeyFree, w => w / 0x1000 = 0xE ∧ w % 0x100 = 0xA1
  | .readDelay, w => w / 0x1000 = 0xF ∧ w % 0x100 = 0x07
  | .waitKey, w => w / 0x1000 = 0xF ∧ w % 0x100 = 0x0A
  | .setDelay, w => w / 0x1000 = 0xF ∧ w % 0x100 = 0x15
  | .setSound, w => w / 0x1000 = 0xF ∧ w % 0x100 = 0x18
  | .addIndex, w => w / 0x1000 = 0xF ∧ w % 0x100 = 0x1E
  | .loadGlyph, w => w / 0x1000 = 0xF ∧ w % 0x100 = 0x29
  | .storeDecimal, w => w / 0x1000 = 0xF ∧ w % 0x100 = 0x33
  | .storeRegs, w => w / 0x1000 = 0xF ∧ w % 0x100 = 0x55
  | .loadRegs, w => w / 0x1000 = 0xF ∧ w % 0x100 = 0x65

theorem matches_of_ofWord? {k : Kind} {w : Nat} (h : ofWord? w = some k) : k.Matches w := by
  unfold ofWord? at h
  split at h
  case h_1 =>
    split at h
    · cases h; assumption
    · split at h
      · cases h; assumption
      · cases h
  case h_9 =>
    split at h <;> cases h <;> exact ⟨by assumption, by assumption⟩
  case h_15 =>
    split at h <;> cases h <;> exact ⟨by assumption, by assumption⟩
  case h_16 =>
    split at h <;> cases h <;> exact ⟨by assumption, by assumption⟩
  all_goals cases h <;> assumption

theorem ofWord?_of_matches {k : Kind} {w : Nat} (h : k.Matches w) : ofWord? w = some k := by
  unfold ofWord?
  cases k <;> simp_all [Matches]

/-- Reading finds the kind that a word matches. -/
theorem ofWord?_eq_some_iff {k : Kind} {w : Nat} : ofWord? w = some k ↔ k.Matches w :=
  ⟨matches_of_ofWord?, ofWord?_of_matches⟩

/-- A word has one kind at most. -/
theorem Matches.unique {k l : Kind} {w : Nat} (hk : k.Matches w) (hl : l.Matches w) : k = l := by
  have h := ofWord?_of_matches hk
  rw [ofWord?_of_matches hl] at h
  exact (Option.some.inj h).symm

/-! ## Reading by tables -/

/-- The formats of one kind each, by the first nibble of their words. -/
def directFormats : List (Nat × Kind) :=
  [(0x1, .jump), (0x2, .call), (0x3, .skipEqByte), (0x4, .skipNeByte), (0x5, .skipEqReg),
    (0x6, .loadByte), (0x7, .addByte), (0x9, .skipNeReg), (0xA, .loadIndex), (0xB, .jumpOffset),
    (0xC, .random), (0xD, .draw)]

/-- The bits that tell the kinds of the other formats apart, by the first nibble. -/
def formatMasks : List (Nat × Nat) := [(0x0, 0xFFFF), (0x8, 0xF00F), (0xE, 0xF0FF), (0xF, 0xF0FF)]

/-- The kinds of the other formats, by these bits. -/
def maskedWords : List (Nat × Kind) :=
  [(0x00E0, .cls), (0x00EE, .ret), (0x8000, .copy), (0x8001, .or), (0x8002, .and), (0x8003, .xor),
    (0x8004, .add), (0x8005, .sub), (0x8006, .shiftRight), (0x8007, .subFrom), (0x800E, .shiftLeft),
    (0xE09E, .skipKeyHeld), (0xE0A1, .skipKeyFree), (0xF007, .readDelay), (0xF00A, .waitKey),
    (0xF015, .setDelay), (0xF018, .setSound), (0xF01E, .addIndex), (0xF029, .loadGlyph),
    (0xF033, .storeDecimal), (0xF055, .storeRegs), (0xF065, .loadRegs)]

/-- A mask of the first nibble and the last `k` bits takes these off a word. -/
theorem and_mask {w k : Nat} (hw : w < 2 ^ 16) (hk : k ≤ 12) :
    w &&& (2 ^ 12 * 15 + (2 ^ k - 1)) = 2 ^ 12 * (w / 2 ^ 12) + w % 2 ^ k := by
  have hpow : 2 ^ k ≤ 2 ^ 12 := Nat.pow_le_pow_right (by decide) hk
  have hpos : 0 < 2 ^ k := Nat.pow_pos (by decide)
  have hrest : w % 2 ^ k < 2 ^ 12 := Nat.lt_of_lt_of_le (Nat.mod_lt w hpos) hpow
  refine Nat.eq_of_testBit_eq fun j => ?_
  rw [Nat.testBit_and, Nat.testBit_two_pow_mul_add 15 (by omega),
    Nat.testBit_two_pow_mul_add _ hrest]
  by_cases hj : j < 12
  · rw [if_pos hj, if_pos hj, Nat.testBit_two_pow_sub_one, Nat.testBit_mod_two_pow, Bool.and_comm]
  · have hnibble : (15 : Nat).testBit (j - 12) = decide (j - 12 < 4) :=
      Nat.testBit_two_pow_sub_one 4 (j - 12)
    have hback : j - 12 + 12 = j := by omega
    rw [if_neg hj, if_neg hj, Nat.testBit_div_two_pow, hback, hnibble]
    by_cases hhigh : j - 12 < 4
    · rw [decide_eq_true hhigh, Bool.and_true]
    · have hbeyond : 2 ^ 16 ≤ 2 ^ j := Nat.pow_le_pow_right (by decide) (by omega)
      rw [Nat.testBit_lt_two_pow (by omega), Bool.false_and]

/-- What two tables say of a word: its first nibble tells the kind, or else the mask for a look at
more of the word. -/
def lookup? (w : Nat) : Option Kind :=
  match directFormats.lookup (w / 0x1000) with
  | some k => some k
  | none => (formatMasks.lookup (w / 0x1000)).bind fun mask => maskedWords.lookup (w &&& mask)

/-- Of the words that begin with a zero the whole is looked at. -/
theorem ofWord?_exact {w : Nat} (h : w / 0x1000 = 0x0) : ofWord? w = maskedWords.lookup w := by
  by_cases hcls : w = 0x00E0
  · subst hcls
    rfl
  by_cases hret : w = 0x00EE
  · subst hret
    rfl
  have htable : ∀ entry ∈ maskedWords, entry.1 < 0x1000 → entry.1 = 0x00E0 ∨ entry.1 = 0x00EE := by
    decide
  have hnone : maskedWords.lookup w = none := by
    rw [List.lookup_eq_none_iff]
    intro entry hentry
    have hknown := htable entry hentry
    rw [bne_iff_ne]
    omega
  simp only [ofWord?, h, if_neg hcls, if_neg hret, hnone]

/-- Of an arithmetic word only the last nibble is looked at. -/
theorem ofWord?_low {w : Nat} (h : w / 0x1000 = 0x8) :
    ofWord? w = maskedWords.lookup (0x1000 * 0x8 + w % 0x10) := by
  have hfirst : (0x1000 * 0x8 + w % 0x10) / 0x1000 = 0x8 := by omega
  have hlow : (0x1000 * 0x8 + w % 0x10) % 0x10 = w % 0x10 := by omega
  have htable : ∀ low < 0x10, ofWord? (0x1000 * 0x8 + low) =
      maskedWords.lookup (0x1000 * 0x8 + low) := by decide
  rw [← htable _ (Nat.mod_lt w (by decide))]
  simp only [ofWord?, h, hfirst, hlow]

/-- Of a word on keys, timers and blocks of memory only the last byte is looked at. -/
theorem ofWord?_byte {w first : Nat} (hfirst : first = 0xE ∨ first = 0xF) (h : w / 0x1000 = first) :
    ofWord? w = maskedWords.lookup (0x1000 * first + w % 0x100) := by
  have hsame : (0x1000 * first + w % 0x100) / 0x1000 = first := by omega
  have hbyte : (0x1000 * first + w % 0x100) % 0x100 = w % 0x100 := by omega
  have htable : ∀ byte < 0x100, ofWord? (0x1000 * first + byte) =
      maskedWords.lookup (0x1000 * first + byte) := by
    obtain rfl | rfl := hfirst <;> decide +kernel
  rw [← htable _ (Nat.mod_lt w (by decide))]
  obtain rfl | rfl := hfirst <;> simp only [ofWord?, h, hsame, hbyte]

/-- A word is read as the two tables say. -/
theorem ofWord?_eq_lookup? {w : Nat} (hw : w < 0x10000) : ofWord? w = lookup? w := by
  have hnibble : w / 0x1000 < 16 := by omega
  have hall : w &&& 0xFFFF = w := Nat.and_two_pow_sub_one_of_lt_two_pow (n := 16) hw
  have hlow : w &&& 0xF00F = 0x1000 * (w / 0x1000) + w % 0x10 := and_mask (k := 4) hw (by decide)
  have hbyte : w &&& 0xF0FF = 0x1000 * (w / 0x1000) + w % 0x100 := and_mask (k := 8) hw (by decide)
  have hmasked : ∀ first mask, w / 0x1000 = first → directFormats.lookup first = none →
      formatMasks.lookup first = some mask → lookup? w = maskedWords.lookup (w &&& mask) := by
    intro first mask h hdirect hmask
    rw [lookup?, h, hdirect, hmask, Option.bind_some]
  generalize hfirst : w / 0x1000 = first at hnibble hlow hbyte
  interval_cases first
  case «0» => rw [hmasked 0x0 0xFFFF hfirst rfl rfl, hall, ofWord?_exact hfirst]
  case «8» => rw [hmasked 0x8 0xF00F hfirst rfl rfl, hlow, ofWord?_low hfirst]
  case «14» => rw [hmasked 0xE 0xF0FF hfirst rfl rfl, hbyte, ofWord?_byte (.inl rfl) hfirst]
  case «15» => rw [hmasked 0xF 0xF0FF hfirst rfl rfl, hbyte, ofWord?_byte (.inr rfl) hfirst]
  all_goals
    simp only [ofWord?, lookup?, hfirst]
    rfl

end Kind

namespace Instr

/-- A 16-bit word is an instruction with its slices iff it matches the pattern of the kind. -/
theorem ofWord?_eq_some_iff {w : Nat} (hw : w < 0x10000) {i : Instr} :
    ofWord? w = some i ↔ i.kind.Matches w ∧ i = ofKind i.kind w := by
  have hlow : ((w : Int) % 0x10000).toNat = w := by omega
  rw [ofWord?, hlow, Option.map_eq_some_iff]
  constructor
  · rintro ⟨k, hk, rfl⟩
    exact ⟨Kind.ofWord?_eq_some_iff.1 hk, rfl⟩
  · rintro ⟨hk, hi⟩
    exact ⟨i.kind, Kind.ofWord?_eq_some_iff.2 hk, hi.symm⟩

theorem matches_of_ofWord? {w : Nat} (hw : w < 0x10000) {i : Instr} (h : ofWord? w = some i) :
    i.kind.Matches w := ((ofWord?_eq_some_iff hw).1 h).1

/-- A 16-bit word is no instruction iff it matches no pattern. -/
theorem ofWord?_eq_none_iff {w : Nat} (hw : w < 0x10000) :
    ofWord? w = none ↔ ∀ k : Kind, ¬ k.Matches w := by
  have hlow : ((w : Int) % 0x10000).toNat = w := by omega
  rw [ofWord?, hlow, Option.map_eq_none_iff]
  constructor
  · intro h k hk
    rw [Kind.ofWord?_of_matches hk] at h
    cases h
  · intro h
    cases hk : Kind.ofWord? w with
    | none => rfl
    | some k => exact absurd (Kind.matches_of_ofWord? hk) (h k)

/-- The low 16 bits of a number are read as the two tables say. -/
theorem ofWord?_eq_lookup? (opcode : Int) :
    ofWord? opcode =
      (Kind.lookup? (opcode % 0x10000).toNat).map (ofKind · (opcode % 0x10000).toNat) := by
  rw [ofWord?, Kind.ofWord?_eq_lookup? (by omega)]

end Instr

end Chip8
