import Chip8.Presenter.Palette
import Chip8.Proofs.HexNumeral

/-!
# Written palettes

A palette is announced as two colours of six hexadecimal digits each with a comma between them, and
as that it is read. But colours are read as numerals that are six characters long, and these can
have a sign, a mark, blanks, underscores and digits of other scripts among them; and a colour below
zero is refused with an error of another kind.

* `SixDigits`, `Palette.Spelled`: the announced form.
* `Palette.parse_eq_ok_iff`, `Palette.parse_eq_negative_iff`: what is read, and as what.
* `Palette.strict_iff`: at which texts the announced form is kept.
-/

namespace Chip8

/-! ## Six digits -/

/-- A character is the hexadecimal digit of a value, in either case. -/
def HexDigit (c : Char) (d : Nat) : Prop :=
  "0123456789abcdef".toList[d]? = some c ∨ "0123456789ABCDEF".toList[d]? = some c

instance (c : Char) (d : Nat) : Decidable (HexDigit c d) := inferInstanceAs (Decidable (_ ∨ _))

/-- A text is the six hexadecimal digits of a number. -/
def SixDigits (s : String) (n : Nat) : Prop :=
  ∃ ds, List.Forall₂ HexDigit s.toList ds ∧ ds.length = 6 ∧ Nat.ofDigits 16 ds.reverse = n

/-- A text of six characters is a hexadecimal numeral of an integer. -/
def SixCharacters (s : String) (v : Int) : Prop := s.length = 6 ∧ Numeral.DenotesHex s v

variable {c : Char} {d n : Nat} {s b f : String} {u v : Int}

theorem HexDigit.digitValue? (h : HexDigit c d) : Numeral.digitValue? 16 c = some d := by
  have hlower : ∀ p ∈ "0123456789abcdef".toList.zipIdx,
      Numeral.digitValue? 16 p.1 = some p.2 := by decide
  have hupper : ∀ p ∈ "0123456789ABCDEF".toList.zipIdx,
      Numeral.digitValue? 16 p.1 = some p.2 := by decide
  obtain h | h := h
  · exact hlower (c, d) (List.mem_zipIdx_iff_getElem?.2 h)
  · exact hupper (c, d) (List.mem_zipIdx_iff_getElem?.2 h)

theorem HexDigit.mem (h : HexDigit c d) : c ∈ "0123456789abcdefABCDEF".toList := by
  obtain h | h := h
  · exact (by decide : "0123456789abcdef".toList ⊆ _) (List.mem_of_getElem? h)
  · exact (by decide : "0123456789ABCDEF".toList ⊆ _) (List.mem_of_getElem? h)

theorem SixDigits.mem (h : SixDigits s n) :
    ∀ c ∈ s.toList, c ∈ "0123456789abcdefABCDEF".toList := by
  obtain ⟨ds, hds, -, -⟩ := h
  generalize s.toList = cs at hds
  induction hds with
  | nil => exact fun c hc => nomatch hc
  | cons hd _ ih => exact List.forall_mem_cons.2 ⟨hd.mem, ih⟩

theorem SixDigits.sixCharacters (h : SixDigits s n) : SixCharacters s n := by
  obtain ⟨ds, hds, hlength, rfl⟩ := h
  have hdigits : Numeral.Digits 16 s.toList ds := hds.imp fun _ _ hd => hd.digitValue?
  have hsix : s.toList.length = 6 := hds.length_eq.trans hlength
  have hrun := hdigits.run (List.ne_nil_of_length_eq_add_one hsix)
  refine ⟨hsix, [], [], [], s.toList, [], ds, ?_, by simp, by simp, .absent, hrun, .absent _⟩
  simp

theorem SixDigits.comma_notMem (h : SixDigits s n) : ',' ∉ s.toList :=
  fun hc => absurd (h.mem ',' hc) (by decide)

theorem SixCharacters.unique (hu : SixCharacters s u) (hv : SixCharacters s v) : u = v :=
  hu.2.unique hv.2

theorem SixCharacters.natAbs_lt (h : SixCharacters s v) : v.natAbs < 0x1000000 := by
  obtain ⟨hlength, hv⟩ := h
  have hlt := hv.natAbs_lt
  rw [hlength] at hlt
  exact hlt

/-! ## Colours -/

/-- The number that the bytes of a colour make up, red first. -/
def Colour.value (c : Colour) : Nat := 0x10000 * c.red.toNat + 0x100 * c.green.toNat + c.blue.toNat

theorem Colour.ofNat_value (c : Colour) : ofNat c.value = c := by
  obtain ⟨r, g, b⟩ := c
  have hr := r.toNat_lt
  have hg := g.toNat_lt
  have hb := b.toNat_lt
  simp only [ofNat, value, mk.injEq, ← UInt8.toNat_inj, UInt8.toNat_ofNat']
  omega

theorem Colour.value_ofNat {n : Nat} (h : n < 0x1000000) : (ofNat n).value = n := by
  simp only [ofNat, value, UInt8.toNat_ofNat']
  omega

namespace Palette

/-- A numeral of six characters is a colour, unless it is below zero. -/
theorem parseColour_eq (h : SixCharacters s v) :
    parseColour s = if v < 0 then .error .negative else .ok (Colour.ofNat v.toNat) := by
  obtain ⟨hlength, hvalue⟩ := h
  rw [parseColour, if_neg (not_not.2 hlength), Numeral.hex?_eq_some_iff.2 hvalue]

/-- What is no numeral of six characters is refused for another reason. -/
theorem parseColour_refused (h : ∀ v, ¬ SixCharacters s v) :
    parseColour s = .error .wrongLength ∨ parseColour s = .error .notHex := by
  unfold parseColour
  split
  · exact .inl rfl
  · rename_i hlength
    split
    · exact .inr rfl
    · rename_i rgb hrgb
      exact absurd ⟨not_not.1 hlength, Numeral.hex?_eq_some_iff.1 hrgb⟩ (h rgb)

theorem parseColour_eq_ok_iff {colour : Colour} :
    parseColour s = .ok colour ↔ SixCharacters s colour.value := by
  constructor
  · intro h
    by_cases hnumeral : ∃ v, SixCharacters s v
    · obtain ⟨v, hv⟩ := hnumeral
      have hlt := hv.natAbs_lt
      rw [parseColour_eq hv] at h
      split at h
      · cases h
      · cases h
        rw [Colour.value_ofNat (by omega), Int.toNat_of_nonneg (by omega)]
        exact hv
    · obtain hrefused | hrefused := parseColour_refused (not_exists.1 hnumeral) <;>
        · rw [hrefused] at h
          cases h
  · intro h
    rw [parseColour_eq h, if_neg (Int.not_lt.2 (Int.natCast_nonneg _)), Int.toNat_natCast,
      Colour.ofNat_value]

theorem parseColour_eq_negative_iff :
    parseColour s = .error .negative ↔ ∃ v < 0, SixCharacters s v := by
  constructor
  · intro h
    by_cases hnumeral : ∃ v, SixCharacters s v
    · obtain ⟨v, hv⟩ := hnumeral
      rw [parseColour_eq hv] at h
      split at h
      · rename_i hsign
        exact ⟨v, hsign, hv⟩
      · cases h
    · obtain hrefused | hrefused := parseColour_refused (not_exists.1 hnumeral) <;>
        · rw [hrefused] at h
          cases h
  · rintro ⟨v, hsign, hv⟩
    rw [parseColour_eq hv, if_pos hsign]

/-! ## Palettes -/

theorem parse_eq (h : Fields.split ',' s = [b, f]) :
    parse s =
      match parseColour b, parseColour f with
      | .error e, _ => .error e
      | .ok _, .error e => .error e
      | .ok background, .ok foreground => .ok { background, foreground } := by
  rw [parse, h]
  show (do return Palette.mk (← parseColour b) (← parseColour f)) = _
  cases parseColour b <;> cases parseColour f <;> rfl

theorem exists_split_of_parse (h : parse s ≠ .error .wrongCount) :
    ∃ b f, Fields.split ',' s = [b, f] := by
  unfold parse at h
  split at h
  · rename_i b f hsplit
    exact ⟨b, f, hsplit⟩
  · exact absurd rfl h

/-- What is read: two numerals of six characters, each as a colour. -/
theorem parse_eq_ok_iff {p : Palette} :
    parse s = .ok p ↔ ∃ b f, Fields.split ',' s = [b, f] ∧
      SixCharacters b p.background.value ∧ SixCharacters f p.foreground.value := by
  constructor
  · intro h
    obtain ⟨b, f, hsplit⟩ := exists_split_of_parse (s := s) (by rw [h]; nofun)
    rw [parse_eq hsplit] at h
    split at h
    · cases h
    · cases h
    · rename_i hb hf
      cases h
      exact ⟨b, f, hsplit, parseColour_eq_ok_iff.1 hb, parseColour_eq_ok_iff.1 hf⟩
  · rintro ⟨b, f, hsplit, hb, hf⟩
    rw [parse_eq hsplit, parseColour_eq_ok_iff.2 hb, parseColour_eq_ok_iff.2 hf]

/-- What is refused with an error of another kind: a numeral below zero, unless it stands behind a
colour that is refused before it. -/
theorem parse_eq_negative_iff :
    parse s = .error .negative ↔ ∃ b f, Fields.split ',' s = [b, f] ∧
      ((∃ v < 0, SixCharacters b v) ∨
        (∃ u ≥ 0, SixCharacters b u) ∧ ∃ v < 0, SixCharacters f v) := by
  constructor
  · intro h
    obtain ⟨b, f, hsplit⟩ := exists_split_of_parse (s := s) (by rw [h]; nofun)
    refine ⟨b, f, hsplit, ?_⟩
    rw [parse_eq hsplit] at h
    split at h
    · rename_i hb
      cases h
      exact .inl (parseColour_eq_negative_iff.1 hb)
    · rename_i hb hf
      cases h
      exact .inr ⟨⟨_, Int.natCast_nonneg _, parseColour_eq_ok_iff.1 hb⟩,
        parseColour_eq_negative_iff.1 hf⟩
    · cases h
  · rintro ⟨b, f, hsplit, hb | ⟨⟨u, hu, hb⟩, hf⟩⟩
    · rw [parse_eq hsplit, parseColour_eq_negative_iff.2 hb]
    · rw [parse_eq hsplit, parseColour_eq hb, if_neg (Int.not_lt.2 hu),
        parseColour_eq_negative_iff.2 hf]

/-! ## The announced form -/

/-- The text spells the palette in the announced form. -/
def Spelled (s : String) (p : Palette) : Prop :=
  ∃ b f, s = b ++ "," ++ f ∧ SixDigits b p.background.value ∧ SixDigits f p.foreground.value

/-- The announced form is kept at a text: just the palette that it spells is read, and if it spells
none it is not refused with an error of another kind. -/
def Strict (s : String) : Prop :=
  (∀ p, parse s = .ok p ↔ Spelled s p) ∧ parse s ≠ .error .negative

theorem split_eq_iff (hb : ',' ∉ b.toList) (hf : ',' ∉ f.toList) :
    Fields.split ',' s = [b, f] ↔ s = b ++ "," ++ f := by
  have hjoin : (String.singleton ',').intercalate [b, f] = b ++ "," ++ f := rfl
  constructor
  · intro h
    rw [← hjoin, ← h, Fields.intercalate_split]
  · rintro rfl
    rw [← hjoin, Fields.split_intercalate _ (List.cons_ne_nil _ _)]
    simp [hb, hf]

theorem spelled_iff {p : Palette} :
    Spelled s p ↔ ∃ b f, Fields.split ',' s = [b, f] ∧
      SixDigits b p.background.value ∧ SixDigits f p.foreground.value := by
  have hsplit {b f : String} {m n : Nat} (hb : SixDigits b m) (hf : SixDigits f n) :
      Fields.split ',' s = [b, f] ↔ s = b ++ "," ++ f :=
    split_eq_iff hb.comma_notMem hf.comma_notMem
  constructor
  · rintro ⟨b, f, hs, hb, hf⟩
    exact ⟨b, f, (hsplit hb hf).2 hs, hb, hf⟩
  · rintro ⟨b, f, hs, hb, hf⟩
    exact ⟨b, f, (hsplit hb hf).1 hs, hb, hf⟩

theorem parse_of_spelled {p : Palette} (h : Spelled s p) : parse s = .ok p := by
  obtain ⟨b, f, hsplit, hb, hf⟩ := spelled_iff.1 h
  exact parse_eq_ok_iff.2 ⟨b, f, hsplit, hb.sixCharacters, hf.sixCharacters⟩

/-- Two fields that are read as numerals are read as a palette only if neither is below zero. -/
theorem exists_parse (hsplit : Fields.split ',' s = [b, f]) (hb : SixCharacters b u)
    (hf : SixCharacters f v) (h : parse s ≠ .error .negative) : ∃ p, parse s = .ok p := by
  rw [parse_eq hsplit, parseColour_eq hb, parseColour_eq hf] at h ⊢
  by_cases hu : u < 0
  · rw [if_pos hu] at h
    exact absurd rfl h
  · by_cases hv : v < 0
    · rw [if_neg hu, if_pos hv] at h
      exact absurd rfl h
    · rw [if_neg hu, if_neg hv]
      exact ⟨_, rfl⟩

theorem strict_iff :
    Strict s ↔ ∀ b f, Fields.split ',' s = [b, f] →
      (∀ v, SixCharacters b v → 0 ≤ v) ∧
      ∀ u v, SixCharacters b u → SixCharacters f v →
        (∃ n, SixDigits b n) ∧ ∃ n, SixDigits f n := by
  constructor
  · rintro ⟨hread, hkind⟩ b f hsplit
    refine ⟨fun v hv => ?_, fun u v hu hv => ?_⟩
    · by_contra hsign
      exact hkind (parse_eq_negative_iff.2 ⟨b, f, hsplit, .inl ⟨v, Int.not_le.1 hsign, hv⟩⟩)
    · obtain ⟨p, hp⟩ := exists_parse hsplit hu hv hkind
      obtain ⟨b', f', hsplit', hb, hf⟩ := spelled_iff.1 ((hread p).1 hp)
      rw [hsplit] at hsplit'
      cases hsplit'
      exact ⟨⟨_, hb⟩, _, hf⟩
  · intro h
    refine ⟨fun p => ⟨fun hp => ?_, parse_of_spelled⟩, fun hkind => ?_⟩
    · obtain ⟨b, f, hsplit, hb, hf⟩ := parse_eq_ok_iff.1 hp
      obtain ⟨⟨m, hm⟩, n, hn⟩ := (h b f hsplit).2 _ _ hb hf
      rw [Int.natCast_inj.1 (hm.sixCharacters.unique hb)] at hm
      rw [Int.natCast_inj.1 (hn.sixCharacters.unique hf)] at hn
      exact spelled_iff.2 ⟨b, f, hsplit, hm, hn⟩
    · obtain ⟨b, f, hsplit, ⟨v, hsign, hb⟩ | ⟨⟨u, -, hb⟩, v, hsign, hf⟩⟩ :=
        parse_eq_negative_iff.1 hkind
      · exact absurd ((h b f hsplit).1 v hb) (Int.not_le.2 hsign)
      · obtain ⟨-, n, hn⟩ := (h b f hsplit).2 u v hb hf
        rw [← hn.sixCharacters.unique hf] at hsign
        exact absurd (Int.natCast_nonneg n) (Int.not_le.2 hsign)

/-- **Written palettes.** Whatever is written, a palette in the announced form is read as what it
spells. In all, two fields are read if both are numerals of six characters that are not below zero;
and a numeral below zero that is reached is an error of another kind. So the announced form is kept
at a text iff the first of its two fields, if there are two, is no numeral below zero, and both
fields are six digits if both are numerals. -/
theorem parse_strict_iff (s : String) :
    (∀ p, Spelled s p → parse s = .ok p) ∧
    (∀ p, parse s = .ok p ↔ ∃ b f, Fields.split ',' s = [b, f] ∧
      SixCharacters b p.background.value ∧ SixCharacters f p.foreground.value) ∧
    (parse s = .error .negative ↔ ∃ b f, Fields.split ',' s = [b, f] ∧
      ((∃ v < 0, SixCharacters b v) ∨
        (∃ u ≥ 0, SixCharacters b u) ∧ ∃ v < 0, SixCharacters f v)) ∧
    (Strict s ↔ ∀ b f, Fields.split ',' s = [b, f] →
      (∀ v, SixCharacters b v → 0 ≤ v) ∧
      ∀ u v, SixCharacters b u → SixCharacters f v →
        (∃ n, SixDigits b n) ∧ ∃ n, SixDigits f n) :=
  ⟨fun _ => parse_of_spelled, fun _ => parse_eq_ok_iff, parse_eq_negative_iff, strict_iff⟩

/-- The announced form is not kept at a colour below zero, and not at one with a mark. -/
theorem not_strict :
    (parse "-00001,FFFFFF" = .error .negative ∧ ¬ Strict "-00001,FFFFFF") ∧
    parse "0x1234,FFFFFF" = .ok ⟨⟨0, 0x12, 0x34⟩, ⟨0xFF, 0xFF, 0xFF⟩⟩ ∧
      ¬ Strict "0x1234,FFFFFF" := by
  have hbelow : parse "-00001,FFFFFF" = .error .negative := by decide +kernel
  have hmark : parse "0x1234,FFFFFF" = .ok ⟨⟨0, 0x12, 0x34⟩, ⟨0xFF, 0xFF, 0xFF⟩⟩ := by
    decide +kernel
  refine ⟨⟨hbelow, fun h => h.2 hbelow⟩, hmark, fun h => ?_⟩
  obtain ⟨b, f, hsplit, hb, -⟩ := spelled_iff.1 ((h.1 _).1 hmark)
  have hfields : Fields.split ',' "0x1234,FFFFFF" = ["0x1234", "FFFFFF"] := by decide +kernel
  rw [hfields] at hsplit
  cases hsplit
  exact absurd (hb.mem 'x' (by decide)) (by decide)

end Palette

end Chip8
