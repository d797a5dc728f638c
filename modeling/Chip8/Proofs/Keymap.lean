import Chip8.Proofs.Keyboard
import Chip8.Proofs.Numeral
import Mathlib.Data.List.Forall2

/-!
# Written key maps

A key map is read from a text iff its fields are sixteen numerals of different integers. Of any
other text the first thing wrong is named: the number of fields, or else the first field that is no
numeral or repeats an integer.

* `Keymap.Distinct`, `Keymap.readFields_eq_ok_iff`: fields of different integers, which are read.
* `Keymap.Offends`, `Keymap.readFields_eq_error_iff`: the field that keeps fields from being read.
* `Keymap.parse_eq_ok_iff`, `Keymap.parse_eq_error_iff`: what is read from a text, and what is wrong
  with it.
* `Keymap.parse_toString`: sixteen different integers in their usual form are read back.
* `Keymap.parse_sixteen`: all of it.
-/

namespace Chip8.Keymap

open Numeral (Denotes decimal? decimal?_eq_some_iff)

variable {seen codes : List Int} {field : String} {fields : List String} {e : Error} {s : String}

/-! ## Fields -/

/-- Fields are numerals of different integers, of which none has been seen. -/
structure Distinct (seen : List Int) (fields : List String) (codes : List Int) : Prop where
  /-- Each field is a numeral of its integer. -/
  denotes : List.Forall₂ Denotes fields codes
  /-- No integer stands twice. -/
  nodup : codes.Nodup
  /-- No integer has been seen. -/
  fresh : ∀ c ∈ codes, c ∉ seen

theorem distinct_nil (seen : List Int) : Distinct seen [] [] := ⟨.nil, List.nodup_nil, nofun⟩

theorem distinct_cons_iff {code : Int} :
    Distinct seen (field :: fields) (code :: codes) ↔
      Denotes field code ∧ code ∉ seen ∧ Distinct (code :: seen) fields codes := by
  constructor
  · rintro ⟨hdenotes, hnodup, hfresh⟩
    obtain ⟨hfield, hfields⟩ := List.forall₂_cons.1 hdenotes
    obtain ⟨hcode, hcodes⟩ := List.nodup_cons.1 hnodup
    refine ⟨hfield, hfresh code (List.mem_cons_self ..), hfields, hcodes, fun c hc hmem => ?_⟩
    obtain rfl | hmem := List.mem_cons.1 hmem
    · exact hcode hc
    · exact hfresh c (List.mem_cons_of_mem _ hc) hmem
  · rintro ⟨hfield, hcode, hfields, hcodes, hfresh⟩
    refine ⟨.cons hfield hfields, List.nodup_cons.2 ⟨fun hc => ?_, hcodes⟩, fun c hc => ?_⟩
    · exact hfresh code hc (List.mem_cons_self ..)
    · obtain rfl | hc := List.mem_cons.1 hc
      · exact hcode
      · exact fun hmem => hfresh c hc (List.mem_cons_of_mem _ hmem)

/-- What is wrong with a field behind fields of the given integers. -/
inductive Offends (before : List Int) (field : String) : Error → Prop
  /-- It is no numeral. -/
  | notAnInteger (h : ∀ code, ¬ Denotes field code) : Offends before field .notAnInteger
  /-- It is a numeral of an integer from before. -/
  | duplicate {code : Int} (h : Denotes field code) (hmem : code ∈ before) :
    Offends before field .duplicate

theorem Offends.mono {before before' : List Int} (h : ∀ c ∈ before, c ∈ before') :
    Offends before field e → Offends before' field e := by
  rintro (hnone | ⟨hcode, hmem⟩)
  · exact .notAnInteger hnone
  · exact .duplicate hcode (h _ hmem)

theorem not_offends {code : Int} (h : Denotes field code) (hcode : code ∉ seen) :
    ¬ Offends seen field e := by
  rintro (hnone | ⟨hcode', hmem⟩)
  · exact hnone code h
  · exact hcode (hcode'.unique h ▸ hmem)

theorem Offends.unique {e' : Error} (h : Offends seen field e) (h' : Offends seen field e') :
    e = e' := by
  cases h with
  | notAnInteger hnone =>
    cases h' with
    | notAnInteger => rfl
    | duplicate hcode => exact absurd hcode (hnone _)
  | duplicate hcode =>
    cases h' with
    | notAnInteger hnone => exact absurd hcode (hnone _)
    | duplicate => rfl

/-- The first field either keeps the fields from being read, or its integer is put in front of those
of the others. -/
theorem readFields_cons (seen : List Int) (field : String) (fields : List String) :
    (∃ e, Offends seen field e ∧ readFields seen (field :: fields) = .error e) ∨
      ∃ code, Denotes field code ∧ code ∉ seen ∧ readFields seen (field :: fields) =
        (readFields (code :: seen) fields).map (code :: ·) := by
  rw [readFields]
  cases hfield : decimal? field with
  | none =>
    refine .inl ⟨_, .notAnInteger fun code hcode => ?_, rfl⟩
    rw [decimal?_eq_some_iff.2 hcode] at hfield
    cases hfield
  | some code =>
    have hcode := decimal?_eq_some_iff.1 hfield
    by_cases hmem : code ∈ seen
    · exact .inl ⟨_, .duplicate hcode hmem, if_pos hmem⟩
    · exact .inr ⟨code, hcode, hmem, if_neg hmem⟩

theorem distinct_of_readFields (h : readFields seen fields = .ok codes) :
    Distinct seen fields codes := by
  induction fields generalizing seen codes with
  | nil =>
    cases h
    exact distinct_nil seen
  | cons field fields ih =>
    obtain ⟨e, -, hread⟩ | ⟨code, hcode, hseen, hread⟩ := readFields_cons seen field fields
    · rw [hread] at h
      cases h
    · rw [hread] at h
      cases hrest : readFields (code :: seen) fields with
      | error e =>
        rw [hrest] at h
        cases h
      | ok rest =>
        rw [hrest] at h
        cases h
        exact distinct_cons_iff.2 ⟨hcode, hseen, ih hrest⟩

/-- Behind fields of different integers, the others are read as if these had been seen. -/
theorem readFields_append {before : List String} (h : Distinct seen before codes)
    (behind : List String) :
    readFields seen (before ++ behind) =
      (readFields (codes.reverse ++ seen) behind).map (codes ++ ·) := by
  induction before generalizing seen codes with
  | nil =>
    cases h.denotes
    cases hbehind : readFields seen behind <;> simp [hbehind, Except.map]
  | cons field before ih =>
    cases codes with
    | nil => cases h.denotes
    | cons code codes =>
      obtain ⟨hcode, hseen, hbefore⟩ := distinct_cons_iff.1 h
      obtain ⟨e, hoffends, -⟩ | ⟨code', hcode', -, hread⟩ :=
        readFields_cons seen field (before ++ behind)
      · exact absurd hoffends (not_offends hcode hseen)
      · cases hcode'.unique hcode
        rw [List.cons_append, hread, ih hbefore, List.reverse_cons, List.append_assoc,
          List.singleton_append]
        cases readFields (codes.reverse ++ code :: seen) behind <;> rfl

/-- Fields are read iff they are numerals of different integers that have not been seen. -/
theorem readFields_eq_ok_iff : readFields seen fields = .ok codes ↔ Distinct seen fields codes := by
  refine ⟨distinct_of_readFields, fun h => ?_⟩
  have hread := readFields_append h []
  rw [List.append_nil] at hread
  rw [hread, readFields]
  simp [Except.map]

/-- Fields are not read iff there is a first one that offends, and then for its reason. -/
theorem readFields_eq_error_iff :
    readFields seen fields = .error e ↔ ∃ before field behind codes,
      fields = before ++ field :: behind ∧ Distinct seen before codes ∧
        Offends (codes.reverse ++ seen) field e := by
  constructor
  · intro h
    induction fields generalizing seen with
    | nil => cases h
    | cons field fields ih =>
      obtain ⟨e', hoffends, hread⟩ | ⟨code, hcode, hseen, hread⟩ :=
        readFields_cons seen field fields
      · rw [hread] at h
        cases h
        exact ⟨[], field, fields, [], rfl, distinct_nil seen, hoffends⟩
      · rw [hread] at h
        cases hrest : readFields (code :: seen) fields with
        | error e' =>
          rw [hrest] at h
          cases h
          obtain ⟨before, field', behind, codes, rfl, hbefore, hoffends⟩ := ih hrest
          refine ⟨field :: before, field', behind, code :: codes, rfl,
            distinct_cons_iff.2 ⟨hcode, hseen, hbefore⟩, ?_⟩
          simpa using hoffends
        | ok rest =>
          rw [hrest] at h
          cases h
  · rintro ⟨before, field, behind, codes, rfl, hbefore, hoffends⟩
    obtain ⟨e', hoffends', hread⟩ | ⟨code, hcode, hseen, -⟩ :=
      readFields_cons (codes.reverse ++ seen) field behind
    · rw [readFields_append hbefore, hread, hoffends.unique hoffends']
      rfl
    · exact absurd hoffends (not_offends hcode hseen)

/-! ## Texts -/

/-- A key map is read from a text iff it has sixteen fields, which are numerals of its codes. -/
theorem parse_eq_ok_iff {m : Keymap} :
    parse s = .ok m ↔ (Fields.split ',' s).length = 16 ∧
      List.Forall₂ Denotes (Fields.split ',' s) m.codes := by
  have hread (h : List.Forall₂ Denotes (Fields.split ',' s) m.codes) :
      readFields [] (Fields.split ',' s) = .ok m.codes :=
    readFields_eq_ok_iff.2 ⟨h, m.nodup_codes, fun _ _ => List.not_mem_nil⟩
  rw [parse]
  split
  · rename_i hcount
    split
    · rename_i e herror
      refine ⟨nofun, fun h => ?_⟩
      rw [hread h.2] at herror
      cases herror
    · rename_i codes hok
      constructor
      · intro h
        cases h
        exact ⟨hcount, (distinct_of_readFields hok).denotes⟩
      · rintro ⟨-, h⟩
        rw [hread h] at hok
        cases hok
        rfl
  · rename_i hcount
    exact ⟨nofun, fun h => absurd h.1 hcount⟩

/-- What is wrong with the fields of a text. -/
inductive Wrong (fields : List String) : Error → Prop
  /-- There are not sixteen of them. -/
  | count (h : fields.length ≠ 16) : Wrong fields .wrongCount
  /-- There are sixteen, and one offends behind fields of different integers. -/
  | field {before behind : List String} {field : String} {codes : List Int} {e : Error}
      (h : fields.length = 16) (hcut : fields = before ++ field :: behind)
      (hbefore : List.Forall₂ Denotes before codes) (hnodup : codes.Nodup)
      (hfield : Offends codes field e) : Wrong fields e

/-- A text that is no key map is refused for the first thing wrong with its fields. -/
theorem parse_eq_error_iff : parse s = .error e ↔ Wrong (Fields.split ',' s) e := by
  have hsame {codes : List Int} {field : String} :
      Offends (codes.reverse ++ []) field e ↔ Offends codes field e :=
    ⟨.mono (by simp), .mono (by simp)⟩
  rw [parse]
  split
  · rename_i hcount
    have hwrong : Wrong (Fields.split ',' s) e ↔ readFields [] (Fields.split ',' s) = .error e := by
      rw [readFields_eq_error_iff]
      constructor
      · rintro (hne | ⟨-, hcut, hbefore, hnodup, hfield⟩)
        · exact absurd hcount hne
        · exact ⟨_, _, _, _, hcut, ⟨hbefore, hnodup, fun _ _ => List.not_mem_nil⟩,
            hsame.2 hfield⟩
      · rintro ⟨before, field, behind, codes, hcut, hbefore, hfield⟩
        exact .field hcount hcut hbefore.denotes hbefore.nodup (hsame.1 hfield)
    rw [hwrong]
    split
    · rename_i e' herror
      rw [herror, Except.error.injEq, Except.error.injEq]
    · rename_i codes hok
      refine ⟨nofun, fun h => ?_⟩
      rw [hok] at h
      cases h
  · rename_i hcount
    constructor
    · intro h
      cases h
      exact .count hcount
    · rintro (- | ⟨h, -⟩)
      · rfl
      · exact absurd h hcount

/-- The text of an error tells the error. -/
theorem message_injective : Function.Injective Error.message := by
  rintro (_ | _ | _) (_ | _ | _) h <;> first | rfl | exact absurd h (by decide)

/-! ## Sixteen integers in their usual form -/

theorem comma_not_mem_toString (code : Int) : ',' ∉ (toString code).toList := by
  intro h
  obtain hminus | hdigit := Numeral.eq_or_isDigit_of_mem_toString h
  · exact absurd hminus (by decide)
  · exact absurd hdigit (by decide)

/-- Different integers in their usual form, sixteen of them and none with more than 4300 digits, are
read back. -/
theorem parse_toString {codes : List Int} (hcount : codes.length = 16) (hnodup : codes.Nodup)
    (hdigits : ∀ c ∈ codes, (Nat.toDigits 10 c.natAbs).length ≤ 4300) :
    parse (",".intercalate (codes.map toString)) = .ok ⟨codes, hcount, hnodup⟩ := by
  have hcomma : ∀ field ∈ codes.map toString, ',' ∉ field.toList := by
    intro field hfield
    obtain ⟨code, -, rfl⟩ := List.mem_map.1 hfield
    exact comma_not_mem_toString code
  have hne : codes.map toString ≠ [] := by
    rw [ne_eq, List.map_eq_nil_iff]
    rintro rfl
    cases hcount
  have hsplit : Fields.split ',' (",".intercalate (codes.map toString)) = codes.map toString :=
    Fields.split_intercalate hcomma hne
  rw [parse_eq_ok_iff, hsplit]
  refine ⟨by rw [List.length_map, hcount], List.forall₂_map_left_iff.2 ?_⟩
  exact List.forall₂_same.2 fun code hcode => Numeral.denotes_toString (hdigits code hcode)

/-- The host code of a key, by its place among the codes. -/
theorem keyOf?_eq_some_iff_getElem? {m : Keymap} {code : Int} {key : Fin 16} :
    m.keyOf? code = some key ↔ m.codes[key.val]? = some code := by
  have hlt : key.val < m.codes.length := by
    rw [m.length_codes]
    exact key.isLt
  rw [keyOf?_eq_some_iff, List.getElem?_eq_getElem hlt, Option.some.injEq]
  rfl

/-- The integer in a place of a list is the one that the field in that place denotes. -/
theorem getElem?_eq_some_iff_denotes (h : List.Forall₂ Denotes fields codes) {k : Nat}
    {code : Int} :
    codes[k]? = some code ↔ ∃ field, fields[k]? = some field ∧ Denotes field code := by
  induction h generalizing k with
  | nil => simp
  | cons hfield _ ih =>
    cases k with
    | zero =>
      simp only [List.getElem?_cons_zero, Option.some.injEq]
      constructor
      · rintro rfl
        exact ⟨_, rfl, hfield⟩
      · rintro ⟨_, rfl, hcode⟩
        exact hfield.unique hcode
    | succ k => simpa only [List.getElem?_cons_succ] using ih

/-- **Key maps.** The fields of a text are what stands between its commas. A key map is read from
the text iff there are sixteen of them, numerals of different integers. Then each key has one code,
which is that of its field. Of any other text the first thing wrong is named. And sixteen different
integers of no more than 4300 digits are read back from their usual forms with commas between
them. -/
theorem parse_sixteen :
    (∀ s : String,
      let fields := Fields.split ',' s
      (",".intercalate fields = s ∧ ∀ field ∈ fields, ',' ∉ field.toList) ∧
        ((∃ m, parse s = .ok m) ↔
          fields.length = 16 ∧ ∃ codes, List.Forall₂ Denotes fields codes ∧ codes.Nodup) ∧
        (∀ m, parse s = .ok m →
          (∀ key, ∃! code, m.keyOf? code = some key) ∧
            ∀ key code, m.keyOf? code = some key ↔
              ∃ field, fields[key.val]? = some field ∧ Denotes field code) ∧
        ∀ e, parse s = .error e ↔ Wrong fields e) ∧
      Function.Injective Error.message ∧
      ∀ codes : List Int, codes.length = 16 → codes.Nodup →
        (∀ c ∈ codes, (Nat.toDigits 10 c.natAbs).length ≤ 4300) →
        ∃ m, parse (",".intercalate (codes.map toString)) = .ok m ∧
          ∀ key code, m.keyOf? code = some key ↔ codes[key.val]? = some code := by
  refine ⟨fun s => ⟨⟨Fields.intercalate_split ',' s, fun _ => Fields.not_mem_of_mem_split⟩, ?_, ?_,
    fun e => parse_eq_error_iff⟩, message_injective, fun codes hcount hnodup hdigits => ?_⟩
  · constructor
    · rintro ⟨m, hm⟩
      obtain ⟨hcount, hdenotes⟩ := parse_eq_ok_iff.1 hm
      exact ⟨hcount, m.codes, hdenotes, m.nodup_codes⟩
    · rintro ⟨hcount, codes, hdenotes, hnodup⟩
      exact ⟨⟨codes, hdenotes.length_eq ▸ hcount, hnodup⟩, parse_eq_ok_iff.2 ⟨hcount, hdenotes⟩⟩
  · intro m hm
    obtain ⟨hcount, hdenotes⟩ := parse_eq_ok_iff.1 hm
    refine ⟨fun key => ⟨m.code key, keyOf?_eq_some_iff.2 rfl, fun code hcode =>
      (keyOf?_eq_some_iff.1 hcode).symm⟩, fun key code => ?_⟩
    rw [keyOf?_eq_some_iff_getElem?]
    exact getElem?_eq_some_iff_denotes hdenotes
  · exact ⟨_, parse_toString hcount hnodup hdigits, fun key code => keyOf?_eq_some_iff_getElem?⟩

end Chip8.Keymap
