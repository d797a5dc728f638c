import Chip8.Proofs.HexNumeral

/-!
# Hexadecimal fields within a text

An integer in hexadecimal ends where a character follows that such integers do not have. So a text
that begins with one, in front of such a character, tells the integer, whatever its width.

* `Hex.fieldChars`, `Hex.Stops`: the characters of a field, and the texts that end one.
* `Hex.takeField_append`: a field in front of such a text is taken off it.
* `Hex.takeByte_append`: a byte has two digits, so it needs no such end.
-/

namespace Chip8.Hex

/-- The characters that an integer in hexadecimal can have. -/
def fieldChars : List Char := "-0123456789abcdef".toList

/-- No field goes on into the text. -/
def Stops (rest : List Char) : Prop := ∀ c ∈ rest.head?, c ∉ fieldChars

theorem stops_nil : Stops [] := fun _ hc => nomatch hc

theorem stops_cons {c : Char} {rest : List Char} : Stops (c :: rest) ↔ c ∉ fieldChars := by
  refine ⟨fun h => h c rfl, fun h d hd => ?_⟩
  cases hd
  exact h

instance : (rest : List Char) → Decidable (Stops rest)
  | [] => .isTrue stops_nil
  | _ :: _ => decidable_of_iff _ stops_cons.symm

theorem Stops.append {cs : List Char} (h : Stops cs) (hne : cs ≠ []) (rest : List Char) :
    Stops (cs ++ rest) := by
  intro c hc
  rw [List.head?_append_of_ne_nil cs hne] at hc
  exact h c hc

/-! ## Characters -/

theorem mem_digits {n : Nat} {c : Char} (h : c ∈ digits n) : c ∈ fieldChars := by
  have hdigit : ∀ d : Fin 16, d.val.digitChar ∈ fieldChars := by decide
  induction n using Nat.strongRecOn with
  | ind n ih =>
    rw [digits, Nat.toDigits_eq_if (by decide)] at h
    split at h
    · rename_i hlt
      rw [List.mem_singleton.1 h]
      exact hdigit ⟨n, hlt⟩
    · rcases List.mem_append.1 h with h | h
      · exact ih (n / 16) (by omega) h
      · rw [List.mem_singleton.1 h]
        exact hdigit ⟨n % 16, Nat.mod_lt n (by decide)⟩

theorem mem_paddedChars {width : Nat} {v : Int} {c : Char} (h : c ∈ paddedChars width v) :
    c ∈ fieldChars := by
  simp only [paddedChars, List.mem_append] at h
  rcases h with (h | h) | h
  · split at h
    · rw [List.mem_singleton.1 h]
      decide
    · cases h
  · rw [List.eq_of_mem_replicate h]
    decide
  · exact mem_digits h

/-! ## Fields in front of a text -/

/-- Characters of a class, in front of a text that does not begin with one, are what is taken. -/
theorem span_append {p : Char → Bool} {xs rest : List Char} (hxs : ∀ c ∈ xs, p c = true)
    (hrest : ∀ c ∈ rest.head?, p c = false) :
    (xs ++ rest).takeWhile p = xs ∧ (xs ++ rest).dropWhile p = rest := by
  rw [List.takeWhile_append_of_pos hxs, List.dropWhile_append_of_pos hxs]
  cases rest with
  | nil => exact ⟨List.append_nil _, rfl⟩
  | cons c rest =>
    have hc : ¬ p c = true := Bool.not_eq_true _ ▸ hrest c rfl
    rw [List.takeWhile_cons_of_neg hc, List.dropWhile_cons_of_neg hc]
    exact ⟨List.append_nil _, rfl⟩

/-- Takes the integer that a text begins with, and leaves the rest. -/
def takeField (text : List Char) : Option (Int × List Char) :=
  (Numeral.hex? (String.ofList (text.takeWhile (· ∈ fieldChars)))).map
    (·, text.dropWhile (· ∈ fieldChars))

theorem hex?_paddedChars (width : Nat) (v : Int) :
    Numeral.hex? (String.ofList (paddedChars width v)) = some v :=
  Numeral.hex?_eq_some_iff.2 (Numeral.denotesHex_padded width v)

/-- **Fields end by themselves.** An integer at a minimum width, in front of a text into which it
does not go on, is taken off that text. -/
theorem takeField_append (width : Nat) (v : Int) {rest : List Char} (h : Stops rest) :
    takeField (paddedChars width v ++ rest) = some (v, rest) := by
  have hfield : ∀ c ∈ paddedChars width v, decide (c ∈ fieldChars) = true :=
    fun c hc => decide_eq_true (mem_paddedChars hc)
  have hstops : ∀ c ∈ rest.head?, decide (c ∈ fieldChars) = false :=
    fun c hc => decide_eq_false (h c hc)
  obtain ⟨htaken, hleft⟩ := span_append hfield hstops
  rw [takeField, htaken, hleft, hex?_paddedChars]
  rfl

theorem paddedChars_append_inj {width : Nat} {v w : Int} {r s : List Char} (hr : Stops r)
    (hs : Stops s) (h : paddedChars width v ++ r = paddedChars width w ++ s) : v = w ∧ r = s := by
  have htaken := takeField_append width v hr
  rw [h, takeField_append width w hs] at htaken
  cases htaken
  exact ⟨rfl, rfl⟩

/-! ## Bytes -/

theorem length_byte (b : UInt8) : (paddedChars 2 b.toNat).length = 2 := by
  have hlength : (digits b.toNat).length ≤ 2 :=
    (Nat.length_toDigits_le_iff (by decide) (by decide)).2 b.toNat_lt
  have hsign : ¬ ((b.toNat : Int) < 0) := Int.not_lt.2 (Int.natCast_nonneg _)
  simp only [paddedChars, hsign, ↓reduceIte, Int.natAbs_natCast, List.length_append,
    List.length_replicate, List.length_nil]
  omega

theorem toList_bytes (bs : List UInt8) :
    (bytes bs).toList = bs.flatMap fun b => paddedChars 2 b.toNat := by
  rw [bytes, String.toList_join, List.flatMap_map]
  simp only [byte, toList_padded]

/-- Takes the byte of which a text begins with the two digits, and leaves the rest. -/
def takeByte (text : List Char) : Option (UInt8 × List Char) :=
  (Numeral.hex? (String.ofList (text.take 2))).map fun v => (UInt8.ofNat v.toNat, text.drop 2)

theorem takeByte_append (b : UInt8) (rest : List Char) :
    takeByte (paddedChars 2 b.toNat ++ rest) = some (b, rest) := by
  rw [takeByte, List.take_left' (length_byte b), List.drop_left' (length_byte b),
    hex?_paddedChars, Option.map_some, Int.toNat_natCast, UInt8.ofNat_toNat]

end Chip8.Hex
