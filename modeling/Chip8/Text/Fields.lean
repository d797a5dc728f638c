/-!
# Fields of a text

A separator divides a text into fields. There is always one field more than there are separators,
and fields can be empty.

* `Fields.split`: the fields of a text.
* `Fields.intercalate_splitChars`: the fields with separators between them are the text again.
* `Fields.not_mem_of_mem_splitChars`: no field holds a separator.
* `Fields.split_intercalate`: no other fields with separators between them are that text.
-/

namespace Chip8.Fields

/-- The fields of a list of characters. -/
def splitChars (separator : Char) : List Char → List (List Char)
  | [] => [[]]
  | c :: cs =>
    if c = separator then [] :: splitChars separator cs
    else (splitChars separator cs).modifyHead (c :: ·)

/-- The fields of a text. -/
def split (separator : Char) (s : String) : List String :=
  (splitChars separator s.toList).map String.ofList

theorem splitChars_ne_nil (separator : Char) (cs : List Char) : splitChars separator cs ≠ [] := by
  induction cs with
  | nil => simp [splitChars]
  | cons c cs ih =>
    unfold splitChars
    split
    · simp
    · simpa using ih

theorem intercalate_splitChars (separator : Char) (cs : List Char) :
    [separator].intercalate (splitChars separator cs) = cs := by
  induction cs with
  | nil => rfl
  | cons c cs ih =>
    obtain ⟨first, rest, hs⟩ := List.exists_cons_of_ne_nil (splitChars_ne_nil separator cs)
    unfold splitChars
    rw [hs] at ih ⊢
    split
    · rename_i hc
      rw [List.intercalate_cons_cons, ih, hc]
      rfl
    · rw [List.modifyHead_cons]
      cases rest with
      | nil => simpa using ih
      | cons second rest =>
        rw [List.intercalate_cons_cons] at ih ⊢
        rw [← ih]
        rfl

theorem not_mem_of_mem_splitChars {separator : Char} {cs field : List Char}
    (h : field ∈ splitChars separator cs) : separator ∉ field := by
  induction cs generalizing field with
  | nil => simp_all [splitChars]
  | cons c cs ih =>
    obtain ⟨first, rest, hs⟩ := List.exists_cons_of_ne_nil (splitChars_ne_nil separator cs)
    unfold splitChars at h
    rw [hs] at h ih
    split at h
    · rcases List.mem_cons.1 h with rfl | h
      · exact List.not_mem_nil
      · exact ih h
    · rename_i hc
      rw [List.modifyHead_cons] at h
      rcases List.mem_cons.1 h with rfl | h
      · exact List.not_mem_cons_of_ne_of_not_mem (Ne.symm hc) (ih (List.mem_cons_self ..))
      · exact ih (List.mem_cons_of_mem _ h)

theorem splitChars_eq_splitOn (separator : Char) (cs : List Char) :
    splitChars separator cs = cs.splitOn separator := by
  induction cs with
  | nil => rfl
  | cons c cs ih =>
    rw [splitChars, ih]
    simp only [List.splitOn, List.splitOnP_cons_eq_if_modifyHead, beq_iff_eq]

/-- Fields that hold no separator are those of the text that they make up. -/
theorem splitChars_intercalate {separator : Char} {fields : List (List Char)}
    (h : ∀ field ∈ fields, separator ∉ field) (hne : fields ≠ []) :
    splitChars separator ([separator].intercalate fields) = fields := by
  rw [splitChars_eq_splitOn, List.splitOn_intercalate separator h hne]

/-! ## Texts -/

theorem intercalate_split (separator : Char) (s : String) :
    (String.singleton separator).intercalate (split separator s) = s := by
  rw [← String.toList_inj, String.toList_intercalate, split, List.map_map,
    String.toList_singleton]
  simp only [Function.comp_def, String.toList_ofList, List.map_id']
  exact intercalate_splitChars separator s.toList

theorem not_mem_of_mem_split {separator : Char} {s field : String} (h : field ∈ split separator s) :
    separator ∉ field.toList := by
  obtain ⟨chars, hchars, rfl⟩ := List.mem_map.1 h
  rw [String.toList_ofList]
  exact not_mem_of_mem_splitChars hchars

theorem split_intercalate {separator : Char} {fields : List String}
    (h : ∀ field ∈ fields, separator ∉ field.toList) (hne : fields ≠ []) :
    split separator ((String.singleton separator).intercalate fields) = fields := by
  have hchars : ∀ chars ∈ fields.map String.toList, separator ∉ chars := by
    intro chars hmem
    obtain ⟨field, hfield, rfl⟩ := List.mem_map.1 hmem
    exact h field hfield
  rw [split, String.toList_intercalate, String.toList_singleton,
    splitChars_intercalate hchars (by simpa using hne), List.map_map]
  simp [Function.comp_def]

end Chip8.Fields
