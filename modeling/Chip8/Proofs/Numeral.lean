import Chip8.Text.Numeral
import Mathlib.Data.List.Forall2
import Mathlib.Data.List.TakeWhile
import Mathlib.Data.Nat.Digits.Defs

/-!
# The grammar of decimal numerals

What is read as an integer, said by how it is written: blanks, a sign, digits with single
underscores between them, and blanks again.

* `Numeral.digitValue?_of_isBlank`: no digit is a blank.
* `Numeral.Run`, `Numeral.digits?_eq_some_iff`: runs of digits, which are what is read as digits.
* `Numeral.Digits`, `Numeral.Digits.run`: digits right behind each other.
* `Numeral.Sign`, `Numeral.exists_sign`, `Numeral.takeSign_of_sign`: signs, and taking one off.
* `Numeral.Denotes`: the numerals of an integer.
* `Numeral.decimal?_eq_some_iff`: they are what is read as that integer.
* `Numeral.denotes_toString`: the usual form of an integer is one of them.
-/

namespace Chip8

/-! ## Blanks -/

namespace Blank

/-- Text is what is left of it without the blanks at its ends, between those blanks. -/
theorem exists_strip (cs : List Char) :
    ∃ before after, cs = before ++ strip cs ++ after ∧ (∀ c ∈ before, isBlank c = true) ∧
      ∀ c ∈ after, isBlank c = true := by
  refine ⟨cs.takeWhile isBlank, ((cs.dropWhile isBlank).reverse.takeWhile isBlank).reverse,
    ?_, fun c hc => ?_, fun c hc => ?_⟩
  · rw [List.append_assoc, strip, ← List.reverse_append, List.takeWhile_append_dropWhile,
      List.reverse_reverse, List.takeWhile_append_dropWhile]
  · exact List.all_eq_true.1 List.all_takeWhile c hc
  · exact List.all_eq_true.1 List.all_takeWhile c (List.mem_reverse.1 hc)

theorem dropWhile_eq_self {cs : List Char} (h : ∀ c ∈ cs, isBlank c = false) :
    cs.dropWhile isBlank = cs := by
  cases cs with
  | nil => rfl
  | cons c cs => rw [List.dropWhile_cons_of_neg (by simp [h c])]

/-- Blanks at the ends of text without blanks are taken off, and nothing else is. -/
theorem strip_append {before core after : List Char} (hbefore : ∀ c ∈ before, isBlank c = true)
    (hcore : ∀ c ∈ core, isBlank c = false) (hafter : ∀ c ∈ after, isBlank c = true) :
    strip (before ++ core ++ after) = core := by
  have hafter' : ∀ c ∈ after.reverse, isBlank c = true := fun c hc =>
    hafter c (List.mem_reverse.1 hc)
  have hcore' : ∀ c ∈ core.reverse, isBlank c = false := fun c hc =>
    hcore c (List.mem_reverse.1 hc)
  rw [strip, List.append_assoc, List.dropWhile_append_of_pos hbefore]
  cases core with
  | nil =>
    have hnone : after.dropWhile isBlank = [] := List.dropWhile_eq_nil_iff.2 hafter
    rw [List.nil_append, hnone]
    rfl
  | cons c core =>
    have hfirst : (c :: core ++ after).dropWhile isBlank = c :: core ++ after :=
      List.dropWhile_cons_of_neg (by simp [hcore c])
    rw [hfirst, List.reverse_append, List.dropWhile_append_of_pos hafter',
      dropWhile_eq_self hcore', List.reverse_reverse]

end Blank

namespace Numeral

theorem digitValue?_eq_none {base : Nat} {c : Char} (hdigit : DecimalDigit.value? c = none)
    (hletter : letterValue? c = none) : digitValue? base c = none := by
  simp [digitValue?, hdigit, hletter]

/-- No digit is a blank: the runs of ten that make up the digits lie between the blanks. -/
theorem digitValue?_of_isBlank {base : Nat} {c : Char} (h : Blank.isBlank c = true) :
    digitValue? base c = none := by
  have hblank : c.toNat ≤ 0x20 ∨ c.toNat = 0x85 ∨ c.toNat = 0xA0 ∨ c.toNat = 0x1680 ∨
      (0x2000 ≤ c.toNat ∧ c.toNat ≤ 0x205F) ∨ c.toNat = 0x3000 := by
    simp only [Blank.isBlank, Bool.or_eq_true, Bool.and_eq_true, decide_eq_true_eq,
      beq_iff_eq] at h
    omega
  have hgaps : ∀ z ∈ DecimalDigit.zeros, 0x20 < z ∧ (z + 10 ≤ 0x85 ∨ 0xA0 < z) ∧
      (z + 10 ≤ 0x1680 ∨ 0x1680 < z) ∧ (z + 10 ≤ 0x2000 ∨ 0x205F < z) ∧
      (z + 10 ≤ 0x3000 ∨ 0x3000 < z) := by decide
  have hdigit : DecimalDigit.value? c = none := by
    rw [DecimalDigit.value?, Option.map_eq_none_iff, List.find?_eq_none]
    intro z hz
    have := hgaps z hz
    simp only [decide_eq_true_eq]
    omega
  have hletter : letterValue? c = none := by
    simp only [letterValue?, Char.le_def, UInt32.le_iff_toNat_le]
    have : c.val.toNat = c.toNat := rfl
    rw [if_neg, if_neg]
    · rintro ⟨hlow, hhigh⟩
      have : 'A'.val.toNat = 65 := rfl
      have : 'F'.val.toNat = 70 := rfl
      omega
    · rintro ⟨hlow, hhigh⟩
      have : 'a'.val.toNat = 97 := rfl
      have : 'f'.val.toNat = 102 := rfl
      omega
  exact digitValue?_eq_none hdigit hletter

@[simp] theorem digitValue?_ten (c : Char) : digitValue? 10 c = DecimalDigit.value? c := by
  rw [digitValue?]
  cases DecimalDigit.value? c <;> rfl

/-! ## Runs of digits -/

/-- Digits with at most one underscore between one and the next, and their values. -/
inductive Run (base : Nat) : List Char → List Nat → Prop
  /-- One digit. -/
  | last {c : Char} {d : Nat} (hc : digitValue? base c = some d) : Run base [c] [d]
  /-- A digit and a run right behind it. -/
  | next {c : Char} {d : Nat} {cs : List Char} {ds : List Nat} (hc : digitValue? base c = some d)
      (hcs : Run base cs ds) : Run base (c :: cs) (d :: ds)
  /-- A digit and a run behind an underscore. -/
  | apart {c : Char} {d : Nat} {cs : List Char} {ds : List Nat} (hc : digitValue? base c = some d)
      (hcs : Run base cs ds) : Run base (c :: '_' :: cs) (d :: ds)

variable {base : Nat} {cs : List Char} {ds : List Nat}

theorem Run.head (h : Run base cs ds) :
    ∃ c d rest, cs = c :: rest ∧ digitValue? base c = some d := by
  cases h with
  | last hc => exact ⟨_, _, _, rfl, hc⟩
  | next hc _ => exact ⟨_, _, _, rfl, hc⟩
  | apart hc _ => exact ⟨_, _, _, rfl, hc⟩

theorem Run.not_isBlank (h : Run base cs ds) : ∀ c ∈ cs, Blank.isBlank c = false := by
  have hdigit {c : Char} {d : Nat} (hc : digitValue? base c = some d) :
      Blank.isBlank c = false := by
    cases hb : Blank.isBlank c with
    | false => rfl
    | true => rw [digitValue?_of_isBlank hb] at hc; cases hc
  induction h with
  | last hc => simpa using hdigit hc
  | next hc _ ih => simpa [hdigit hc] using ih
  | apart hc _ ih =>
    have hunderscore : Blank.isBlank '_' = false := by decide
    simpa [hdigit hc, hunderscore] using ih

theorem digitValue?_underscore : digitValue? base '_' = none :=
  digitValue?_eq_none (by decide) (by decide)

theorem run_of_digits? (h : digits? base cs = some ds) : Run base cs ds := by
  fun_induction digits? base cs generalizing ds with
  | case1 => cases h
  | case2 => cases h
  | case3 c d hc =>
    cases h
    exact .last hc
  | case4 c d hc rest ih =>
    obtain ⟨ds, hds, rfl⟩ := Option.map_eq_some_iff.1 h
    exact .apart hc (ih hds)
  | case5 c d hc rest _ _ ih =>
    obtain ⟨ds, hds, rfl⟩ := Option.map_eq_some_iff.1 h
    exact .next hc (ih hds)

theorem digits?_of_run (h : Run base cs ds) : digits? base cs = some ds := by
  induction h with
  | last hc => simp [digits?, hc]
  | next hc hcs ih =>
    -- What follows the digit starts with a digit, so it is neither empty nor behind an underscore.
    obtain ⟨c', d', rest, rfl, hc'⟩ := hcs.head
    have hne : c' ≠ '_' := by
      rintro rfl
      rw [digitValue?_underscore] at hc'
      cases hc'
    rw [digits?, hc]
    simp [hne, ih]
  | apart hc _ ih => simp [digits?, hc, ih]

/-- The characters are digits, one for each of the values. -/
def Digits (base : Nat) (cs : List Char) (ds : List Nat) : Prop :=
  List.Forall₂ (fun c d => digitValue? base c = some d) cs ds

theorem Digits.run (h : Digits base cs ds) (hne : cs ≠ []) : Run base cs ds := by
  induction h with
  | nil => exact absurd rfl hne
  | @cons c d cs ds hc hcs ih =>
    cases hcs with
    | nil => exact .last hc
    | cons => exact .next hc (ih (List.cons_ne_nil _ _))

/-- Runs are what is read as digits. -/
theorem digits?_eq_some_iff : digits? base cs = some ds ↔ Run base cs ds :=
  ⟨run_of_digits?, digits?_of_run⟩

/-- The number that digits denote, by the library's function, which takes them from the other
end. -/
theorem ofDigits_eq (base : Nat) (ds : List Nat) :
    ofDigits base ds = Nat.ofDigits base ds.reverse := by
  rw [ofDigits, Nat.ofDigits_eq_foldr, List.foldr_reverse]
  simp only [Nat.cast_id, Nat.add_comm]

/-! ## Signs -/

/-- The ways to write a sign, and what a number becomes behind it. -/
inductive Sign : List Char → Nat → Int → Prop
  /-- No sign. -/
  | absent (n : Nat) : Sign [] n n
  /-- A plus sign, which changes nothing. -/
  | plus (n : Nat) : Sign ['+'] n n
  /-- A minus sign. -/
  | minus (n : Nat) : Sign ['-'] n (-n)

/-- What is taken off is a sign. -/
theorem exists_sign (cs : List Char) :
    ∃ sign, cs = sign ++ (takeSign cs).2 ∧ ∀ n, Sign sign n (signed (takeSign cs).1 n) := by
  unfold takeSign
  split
  · exact ⟨['-'], rfl, fun n => .minus n⟩
  · exact ⟨['+'], rfl, fun n => .plus n⟩
  · exact ⟨[], rfl, fun n => .absent n⟩

/-- A sign in front of a digit is taken off, and nothing else is. -/
theorem takeSign_of_head {sign : List Char} {c : Char} {d n : Nat} {v : Int}
    (h : Sign sign n v) (hc : digitValue? base c = some d) (rest : List Char) :
    (takeSign (sign ++ c :: rest)).2 = c :: rest ∧
      signed (takeSign (sign ++ c :: rest)).1 n = v := by
  cases h with
  | absent =>
    have hminus : c ≠ '-' := by
      rintro rfl
      rw [digitValue?_eq_none (by decide) (by decide)] at hc
      cases hc
    have hplus : c ≠ '+' := by
      rintro rfl
      rw [digitValue?_eq_none (by decide) (by decide)] at hc
      cases hc
    simp [takeSign, hminus, hplus, signed]
  | plus => exact ⟨rfl, rfl⟩
  | minus => exact ⟨rfl, rfl⟩

/-- A sign in front of a run is taken off, and nothing else is. -/
theorem takeSign_of_sign {sign : List Char} {n : Nat} {v : Int} (h : Sign sign n v)
    (hcs : Run base cs ds) :
    (takeSign (sign ++ cs)).2 = cs ∧ signed (takeSign (sign ++ cs)).1 n = v := by
  obtain ⟨c, d, rest, rfl, hc⟩ := hcs.head
  exact takeSign_of_head h hc rest

theorem Sign.not_isBlank {sign : List Char} {n : Nat} {v : Int} (h : Sign sign n v) :
    ∀ c ∈ sign, Blank.isBlank c = false := by
  intro c hc
  cases h with
  | absent => cases hc
  | plus | minus =>
    rw [List.mem_singleton.1 hc]
    rfl

/-! ## Numerals -/

/-- A text is a numeral of an integer: a run of no more than 4300 digits behind a sign, or behind
none, with blanks around it. -/
def Denotes (s : String) (v : Int) : Prop :=
  ∃ before sign body after ds, s.toList = before ++ (sign ++ body) ++ after ∧
    (∀ c ∈ before, Blank.isBlank c = true) ∧ (∀ c ∈ after, Blank.isBlank c = true) ∧
    Run 10 body ds ∧ ds.length ≤ 4300 ∧ Sign sign (Nat.ofDigits 10 ds.reverse) v

/-- A text is read as an integer iff it is a numeral of it. -/
theorem decimal?_eq_some_iff {s : String} {v : Int} : decimal? s = some v ↔ Denotes s v := by
  constructor
  · intro h
    obtain ⟨before, after, hs, hbefore, hafter⟩ := Blank.exists_strip s.toList
    obtain ⟨sign, hsign, hvalue⟩ := exists_sign (Blank.strip s.toList)
    simp only [decimal?] at h
    split at h
    · cases h
    · rename_i ds hds
      split at h
      · rename_i hlength
        cases h
        refine ⟨before, sign, _, after, ds, hsign ▸ hs, hbefore, hafter,
          digits?_eq_some_iff.1 hds, hlength, ?_⟩
        rw [← ofDigits_eq]
        exact hvalue _
      · cases h
  · rintro ⟨before, sign, body, after, ds, hs, hbefore, hafter, hrun, hlength, hsign⟩
    have hcore : ∀ c ∈ sign ++ body, Blank.isBlank c = false := by
      intro c hc
      exact (List.mem_append.1 hc).elim (hsign.not_isBlank c) (hrun.not_isBlank c)
    obtain ⟨hbody, hvalue⟩ := takeSign_of_sign hsign hrun
    simp only [decimal?, hs, Blank.strip_append hbefore hcore hafter, hbody,
      digits?_eq_some_iff.2 hrun, maxDigits, hlength, ↓reduceIte, ofDigits_eq, hvalue]

example : ["1", "+1", " 01"].map decimal? = [some 1, some 1, some 1] := by decide

theorem Denotes.unique {s : String} {v w : Int} (hv : Denotes s v) (hw : Denotes s w) : v = w :=
  Option.some.inj ((decimal?_eq_some_iff.2 hv).symm.trans (decimal?_eq_some_iff.2 hw))

/-! ## The usual form of an integer -/

/-- A digit of the usual form is one at its usual value. -/
theorem value?_of_isDigit {c : Char} (h : c.isDigit = true) :
    DecimalDigit.value? c = some (c.toNat - '0'.toNat) := by
  obtain ⟨hlow, hhigh⟩ := Char.isDigit_iff_toNat.1 h
  have hzero : '0'.toNat = 48 := rfl
  have hnine : '9'.toNat = 57 := rfl
  have hlt : c.toNat - 48 < 10 := by omega
  have hchar : (c.toNat - 48).digitChar = c := by
    rw [← Char.toNat_inj, Nat.toNat_digitChar_of_lt_ten hlt]
    omega
  rw [hzero]
  simpa [hchar] using DecimalDigit.value?_digitChar ⟨c.toNat - 48, hlt⟩

theorem run_of_isDigit {cs : List Char} (h : ∀ c ∈ cs, c.isDigit = true) (hne : cs ≠ []) :
    Run 10 cs (cs.map fun c => c.toNat - '0'.toNat) := by
  have hdigits : Digits 10 cs (cs.map fun c => c.toNat - '0'.toNat) :=
    List.forall₂_map_right_iff.2 (List.forall₂_same.2 fun c hc =>
      (digitValue?_ten c).trans (value?_of_isDigit (h c hc)))
  exact hdigits.run hne

/-- The digits of a number make up the number. -/
theorem ofDigits_toDigits (n : Nat) :
    Nat.ofDigits 10 (((Nat.toDigits 10 n).map fun c => c.toNat - '0'.toNat).reverse) = n := by
  rw [← ofDigits_eq, ofDigits, List.foldl_map, ← Nat.ofDigitChars_eq_foldl]
  exact Nat.ofDigitChars_ten_toDigits

/-- The sign of an integer in its usual form. -/
def signOf : Int → List Char
  | .ofNat _ => []
  | .negSucc _ => ['-']

theorem sign_signOf (v : Int) : Sign (signOf v) v.natAbs v := by
  cases v with
  | ofNat n => exact .absent n
  | negSucc n => exact .minus (n + 1)

/-- The usual form of an integer is its digits behind its sign. -/
theorem toList_toString (v : Int) :
    (toString v).toList = signOf v ++ Nat.toDigits 10 v.natAbs := by
  cases v with
  | ofNat n =>
    show (Nat.repr n).toList = Nat.toDigits 10 n
    rw [Nat.repr_eq_ofList_toDigits, String.toList_ofList]
  | negSucc n =>
    show ("-" ++ Nat.repr (n + 1)).toList = ['-'] ++ Nat.toDigits 10 (n + 1)
    rw [Nat.repr_eq_ofList_toDigits, String.toList_append, String.toList_ofList,
      String.toList_ofList]

theorem eq_or_isDigit_of_mem_toString {v : Int} {c : Char} (h : c ∈ (toString v).toList) :
    c = '-' ∨ c.isDigit = true := by
  rw [toList_toString, List.mem_append] at h
  obtain hsign | hdigit := h
  · cases v with
    | ofNat n => cases hsign
    | negSucc n => exact .inl (List.mem_singleton.1 hsign)
  · exact .inr (Nat.isDigit_of_mem_toDigits (by decide) (by decide) hdigit)

/-- The usual form of an integer of no more than 4300 digits is a numeral of it. -/
theorem denotes_toString {v : Int} (h : (Nat.toDigits 10 v.natAbs).length ≤ 4300) :
    Denotes (toString v) v := by
  have hrun : Run 10 (Nat.toDigits 10 v.natAbs) _ :=
    run_of_isDigit (fun c hc => Nat.isDigit_of_mem_toDigits (by decide) (by decide) hc)
      Nat.toDigits_ne_nil
  refine ⟨[], signOf v, _, [], _, ?_, by simp, by simp, hrun, by simpa using h, ?_⟩
  · rw [toList_toString, List.nil_append, List.append_nil]
  · rw [ofDigits_toDigits]
    exact sign_signOf v

end Numeral

end Chip8
