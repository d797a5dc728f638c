import Chip8.Proofs.Numeral
import Chip8.Text.Hex

/-!
# Hexadecimal numerals

What is read as an integer in base sixteen, said by how it is written, and that the integers which
are written in hexadecimal are among them.

* `Numeral.Mark`, `Numeral.exists_mark`, `Numeral.dropBaseMark_of_mark`: the marks in front of the
  digits, and taking one off.
* `Numeral.DenotesHex`, `Numeral.hex?_eq_some_iff`: the hexadecimal numerals of an integer, which
  are what is read as it.
* `Numeral.DenotesHex.natAbs_lt`: how large an integer can be whose numeral has so many characters.
* `Numeral.denotesHex_padded`: an integer at a minimum width is a numeral of it.
-/

namespace Chip8

namespace Numeral

/-! ## Marks -/

/-- What can stand in front of the digits: a zero of any script and an `x`, and an underscore behind
them. -/
inductive Mark : List Char → Prop
  /-- No mark. -/
  | absent : Mark []
  /-- A zero and an `x`. -/
  | plain {z x : Char} (hz : DecimalDigit.value? z = some 0) (hx : x = 'x' ∨ x = 'X') : Mark [z, x]
  /-- A zero, an `x` and an underscore. -/
  | apart {z x : Char} (hz : DecimalDigit.value? z = some 0) (hx : x = 'x' ∨ x = 'X') :
    Mark [z, x, '_']

variable {base : Nat} {cs : List Char} {ds : List Nat}

/-- What is taken off is a mark. -/
theorem exists_mark (cs : List Char) : ∃ mark, Mark mark ∧ cs = mark ++ dropBaseMark cs := by
  unfold dropBaseMark
  split
  · rename_i z x cs
    split
    · rename_i hmark
      split
      · exact ⟨[z, x, '_'], .apart hmark.1 hmark.2, rfl⟩
      · exact ⟨[z, x], .plain hmark.1 hmark.2, rfl⟩
    · exact ⟨[], .absent, rfl⟩
  · exact ⟨[], .absent, rfl⟩

theorem digitValue?_x {base : Nat} {x : Char} (hx : x = 'x' ∨ x = 'X') :
    digitValue? base x = none := by
  rcases hx with rfl | rfl <;> exact digitValue?_eq_none (by decide) (by decide)

theorem Run.second {c x : Char} (h : Run base (c :: x :: cs) ds) :
    x = '_' ∨ ∃ d, digitValue? base x = some d := by
  cases h with
  | next _ hcs =>
    obtain ⟨_, d, _, hcons, hx⟩ := hcs.head
    obtain ⟨rfl, -⟩ := List.cons.inj hcons
    exact .inr ⟨d, hx⟩
  | apart => exact .inl rfl

/-- A mark in front of a run is taken off, and nothing else is. -/
theorem dropBaseMark_of_mark {mark : List Char} (h : Mark mark) (hcs : Run 16 cs ds) :
    dropBaseMark (mark ++ cs) = cs := by
  cases h with
  | absent =>
    rw [List.nil_append]
    unfold dropBaseMark
    split
    · rename_i z x rest
      rw [if_neg]
      rintro ⟨-, hx⟩
      obtain rfl | ⟨d, hd⟩ := hcs.second
      · exact absurd hx (by decide)
      · rw [digitValue?_x hx] at hd
        cases hd
    · rfl
  | plain hz hx =>
    obtain ⟨c, d, rest, rfl, hc⟩ := hcs.head
    have hne : c ≠ '_' := by
      rintro rfl
      rw [digitValue?_underscore] at hc
      cases hc
    simp [dropBaseMark, hz, hx, hne]
  | apart hz hx => simp [dropBaseMark, hz, hx]

theorem digitValue?_of_zero {base : Nat} {z : Char} {d : Nat}
    (hz : DecimalDigit.value? z = some d) : digitValue? base z = some d := by
  rw [digitValue?, hz]

/-- What stands behind the sign begins with a digit. -/
theorem Mark.head {mark : List Char} (h : Mark mark) (hcs : Run 16 cs ds) :
    ∃ c d rest, mark ++ cs = c :: rest ∧ digitValue? 16 c = some d := by
  cases h with
  | absent => exact hcs.head
  | plain hz | apart hz => exact ⟨_, _, _, rfl, digitValue?_of_zero hz⟩

theorem Mark.not_isBlank {mark : List Char} (h : Mark mark) :
    ∀ c ∈ mark, Blank.isBlank c = false := by
  have hzero {z : Char} (hz : DecimalDigit.value? z = some 0) : Blank.isBlank z = false := by
    cases hb : Blank.isBlank z with
    | false => rfl
    | true =>
      have hnone : digitValue? 10 z = none := digitValue?_of_isBlank hb
      rw [digitValue?_ten, hz] at hnone
      cases hnone
  have hletter {x : Char} (hx : x = 'x' ∨ x = 'X') : Blank.isBlank x = false := by
    rcases hx with rfl | rfl <;> rfl
  cases h with
  | absent => exact fun c hc => nomatch hc
  | plain hz hx => simp [hzero hz, hletter hx]
  | apart hz hx =>
    have hunderscore : Blank.isBlank '_' = false := by decide
    simp [hzero hz, hletter hx, hunderscore]

/-! ## Numerals -/

/-- A text is a hexadecimal numeral of an integer: a run of digits behind a mark and a sign, or
behind none, with blanks around it. -/
def DenotesHex (s : String) (v : Int) : Prop :=
  ∃ before sign mark body after ds, s.toList = before ++ (sign ++ (mark ++ body)) ++ after ∧
    (∀ c ∈ before, Blank.isBlank c = true) ∧ (∀ c ∈ after, Blank.isBlank c = true) ∧
    Mark mark ∧ Run 16 body ds ∧ Sign sign (Nat.ofDigits 16 ds.reverse) v

/-- A text is read as an integer in base sixteen iff it is a hexadecimal numeral of it. -/
theorem hex?_eq_some_iff {s : String} {v : Int} : hex? s = some v ↔ DenotesHex s v := by
  constructor
  · intro h
    obtain ⟨before, after, hs, hbefore, hafter⟩ := Blank.exists_strip s.toList
    obtain ⟨sign, hsign, hvalue⟩ := exists_sign (Blank.strip s.toList)
    obtain ⟨mark, hmark, hcut⟩ := exists_mark (takeSign (Blank.strip s.toList)).2
    simp only [hex?] at h
    obtain ⟨ds, hds, rfl⟩ := Option.map_eq_some_iff.1 h
    refine ⟨before, sign, mark, _, after, ds, ?_, hbefore, hafter, hmark,
      digits?_eq_some_iff.1 hds, ?_⟩
    · rw [← hcut, ← hsign]
      exact hs
    · rw [← ofDigits_eq]
      exact hvalue _
  · rintro ⟨before, sign, mark, body, after, ds, hs, hbefore, hafter, hmark, hrun, hsign⟩
    have hcore : ∀ c ∈ sign ++ (mark ++ body), Blank.isBlank c = false := by
      intro c hc
      rcases List.mem_append.1 hc with hc | hc
      · exact hsign.not_isBlank c hc
      · exact (List.mem_append.1 hc).elim (hmark.not_isBlank c) (hrun.not_isBlank c)
    obtain ⟨c, d, rest, hhead, hc⟩ := hmark.head hrun
    obtain ⟨hbody, hvalue⟩ := takeSign_of_head hsign hc rest
    rw [← hhead] at hbody hvalue
    simp only [hex?, hs, Blank.strip_append hbefore hcore hafter, hbody,
      dropBaseMark_of_mark hmark hrun, digits?_eq_some_iff.2 hrun, Option.map_some, ofDigits_eq,
      hvalue]

theorem DenotesHex.unique {s : String} {v w : Int} (hv : DenotesHex s v) (hw : DenotesHex s w) :
    v = w :=
  Option.some.inj ((hex?_eq_some_iff.2 hv).symm.trans (hex?_eq_some_iff.2 hw))

/-! ## Bounds -/

theorem digitValue?_lt {c : Char} {d : Nat} (h : digitValue? base c = some d) : d < 16 := by
  unfold digitValue? at h
  split at h
  · rename_i hvalue
    cases h
    have := DecimalDigit.value?_lt_ten hvalue
    omega
  · split at h
    · simp only [letterValue?, Char.le_def, UInt32.le_iff_toNat_le] at h
      have hf : 'f'.val.toNat = 102 := rfl
      have hF : 'F'.val.toNat = 70 := rfl
      have ha : 'a'.toNat = 97 := rfl
      have hA : 'A'.toNat = 65 := rfl
      have hc : c.toNat = c.val.toNat := rfl
      split at h
      · cases h
        omega
      · split at h
        · cases h
          omega
        · cases h
    · cases h

theorem Run.lt (h : Run base cs ds) : ∀ d ∈ ds, d < 16 := by
  induction h with
  | last hc => exact List.forall_mem_singleton.2 (digitValue?_lt hc)
  | next hc _ ih | apart hc _ ih => exact List.forall_mem_cons.2 ⟨digitValue?_lt hc, ih⟩

theorem Run.length_le (h : Run base cs ds) : ds.length ≤ cs.length := by
  induction h with
  | last => exact Nat.le_refl _
  | next _ _ ih => exact Nat.succ_le_succ ih
  | apart _ _ ih => exact Nat.le_succ_of_le (Nat.succ_le_succ ih)

theorem Sign.natAbs {sign : List Char} {n : Nat} {v : Int} (h : Sign sign n v) : v.natAbs = n := by
  cases h with
  | absent | plus => exact Int.natAbs_natCast n
  | minus => rw [Int.natAbs_neg, Int.natAbs_natCast]

/-- A numeral has enough characters for its integer. -/
theorem DenotesHex.natAbs_lt {s : String} {v : Int} (h : DenotesHex s v) :
    v.natAbs < 16 ^ s.length := by
  obtain ⟨before, sign, mark, body, after, ds, hs, -, -, -, hrun, hsign⟩ := h
  have hbody : body.length ≤ s.length := by
    rw [← String.length_toList, hs]
    simp only [List.length_append]
    omega
  rw [hsign.natAbs]
  calc
    Nat.ofDigits 16 ds.reverse < 16 ^ ds.reverse.length :=
      Nat.ofDigits_lt_base_pow_length (by decide) fun d hd => hrun.lt d (List.mem_reverse.1 hd)
    _ ≤ 16 ^ s.length := by
      rw [List.length_reverse]
      exact Nat.pow_le_pow_right (by decide) (hrun.length_le.trans hbody)

/-! ## Integers in hexadecimal -/

theorem ofDigits_append (base : Nat) (ds : List Nat) (d : Nat) :
    ofDigits base (ds ++ [d]) = base * ofDigits base ds + d := by
  rw [ofDigits, List.foldl_append]
  rfl

theorem digitValue?_digitChar {d : Nat} (hd : d < 16) : digitValue? 16 d.digitChar = some d := by
  have hall : ∀ d : Fin 16, digitValue? 16 d.val.digitChar = some d.val := by decide
  exact hall ⟨d, hd⟩

/-- The digits of a number, behind any number of zeros, make up the number. -/
theorem exists_digits (k n : Nat) :
    ∃ ds, Digits 16 (List.replicate k '0' ++ Hex.digits n) ds ∧ ofDigits 16 ds = n := by
  induction k with
  | zero =>
    induction n using Nat.strongRecOn with
    | ind n ih =>
      rw [Hex.digits, Nat.toDigits_eq_if (by decide)]
      split
      · rename_i hlt
        exact ⟨[n], .cons (digitValue?_digitChar hlt) .nil, by simp [ofDigits]⟩
      · obtain ⟨ds, hds, hvalue⟩ := ih (n / 16) (by omega)
        refine ⟨ds ++ [n % 16],
          List.rel_append hds (.cons (digitValue?_digitChar (by omega)) .nil), ?_⟩
        rw [ofDigits_append, hvalue]
        omega
  | succ k ih =>
    obtain ⟨ds, hds, hvalue⟩ := ih
    refine ⟨0 :: ds, .cons (by decide) hds, ?_⟩
    rw [← hvalue]
    rfl

/-- An integer at a minimum width is its digits behind its sign and zeros. -/
theorem exists_fill (width : Nat) (v : Int) : ∃ k,
    (Hex.padded width v).toList = signOf v ++ (List.replicate k '0' ++ Hex.digits v.natAbs) := by
  have hsign : (if v < 0 then ['-'] else []) = signOf v := by
    cases v with
    | ofNat n => exact if_neg (Int.not_lt.2 (Int.natCast_nonneg n))
    | negSucc n => exact if_pos (Int.negSucc_lt_zero n)
  rw [Hex.toList_padded, Hex.paddedChars, hsign]
  exact ⟨_, List.append_assoc ..⟩

/-- An integer at a minimum width is a numeral of it. -/
theorem denotesHex_padded (width : Nat) (v : Int) : DenotesHex (Hex.padded width v) v := by
  obtain ⟨k, hfill⟩ := exists_fill width v
  obtain ⟨ds, hds, hvalue⟩ := exists_digits k v.natAbs
  have hrun : Run 16 (List.replicate k '0' ++ Hex.digits v.natAbs) ds :=
    hds.run (by simp [Hex.digits_ne_nil])
  refine ⟨[], signOf v, [], _, [], ds, ?_, by simp, by simp, .absent, hrun, ?_⟩
  · rw [hfill, List.nil_append, List.nil_append, List.append_nil]
  · rw [← ofDigits_eq, hvalue]
    exact sign_signOf v

end Numeral

end Chip8
