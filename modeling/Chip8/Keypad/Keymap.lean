import Chip8.Text.Fields
import Chip8.Text.Numeral

/-!
# Key maps

A key map gives each of the sixteen keys of the keypad the code of a key on the host's keyboard.
It is written as sixteen integers between commas, the code of key 0 first.

* `Keymap.parse`: reads a map and names the first thing wrong with it.
* `Keymap.keyOf?`: the key that a host code stands for.
-/

namespace Chip8

/-- Sixteen different host codes, that of key 0 first. -/
structure Keymap where
  /-- The code of each key. -/
  codes : List Int
  /-- Every key has a code. -/
  length_codes : codes.length = 16
  /-- No code stands for two keys. -/
  nodup_codes : codes.Nodup
deriving DecidableEq

namespace Keymap

/-- What is wrong with a written key map. -/
inductive Error where
  /-- There are not sixteen fields. -/
  | wrongCount
  /-- A field is not an integer. -/
  | notAnInteger
  /-- A field repeats the value of an earlier one. -/
  | duplicate
deriving DecidableEq, Repr

/-- The text of an error. -/
def Error.message : Error → String
  | .wrongCount =>
    "Incorrect number of keys defined -- 16 required.  Use commas to split numbers"
  | .notAnInteger => "Defined keys are not all integer values"
  | .duplicate => "Duplicate keys defined"

/-- The values of the fields, given the values `seen` in the fields before them. -/
def readFields (seen : List Int) : List String → Except Error (List Int)
  | [] => .ok []
  | field :: fields =>
    match Numeral.decimal? field with
    | none => .error .notAnInteger
    | some code =>
      if code ∈ seen then .error .duplicate
      else (readFields (code :: seen) fields).map (code :: ·)

theorem length_of_readFields {seen codes : List Int} {fields : List String}
    (h : readFields seen fields = .ok codes) : codes.length = fields.length := by
  induction fields generalizing seen codes with
  | nil => cases h; rfl
  | cons field fields ih =>
    unfold readFields at h
    split at h
    · cases h
    · split at h
      · cases h
      · cases hr : readFields (_ :: seen) fields with
        | error e => rw [hr] at h; cases h
        | ok rest => rw [hr] at h; cases h; simp [ih hr]

theorem nodup_of_readFields {seen codes : List Int} {fields : List String}
    (h : readFields seen fields = .ok codes) : codes.Nodup ∧ ∀ c ∈ codes, c ∉ seen := by
  induction fields generalizing seen codes with
  | nil => cases h; simp
  | cons field fields ih =>
    unfold readFields at h
    split at h
    · cases h
    · rename_i code _
      split at h
      · cases h
      · rename_i hseen
        cases hr : readFields (code :: seen) fields with
        | error e => rw [hr] at h; cases h
        | ok rest =>
          rw [hr] at h
          cases h
          obtain ⟨hnodup, hfresh⟩ := ih hr
          refine ⟨List.nodup_cons.2 ⟨fun hc => ?_, hnodup⟩, ?_⟩
          · exact hfresh code hc (List.mem_cons_self ..)
          · intro c hc
            rcases List.mem_cons.1 hc with rfl | hc
            · exact hseen
            · exact fun hs => hfresh c hc (List.mem_cons_of_mem _ hs)

/-- Reads a key map. A wrong number of fields is reported first, then the first offending field. -/
def parse (s : String) : Except Error Keymap :=
  let fields := Fields.split ',' s
  if hcount : fields.length = 16 then
    match hread : readFields [] fields with
    | .error e => .error e
    | .ok codes =>
      .ok {
        codes
        length_codes := by rw [length_of_readFields hread, hcount]
        nodup_codes := (nodup_of_readFields hread).1 }
  else .error .wrongCount

/-- The key that a host code stands for. -/
def keyOf? (m : Keymap) (code : Int) : Option (Fin 16) :=
  (m.codes.finIdxOf? code).map (Fin.cast m.length_codes)

/-- The written form of the map in use when none is given: the left-hand block of a keyboard. -/
def standardText : String := "120,49,50,51,113,119,101,97,115,100,122,99,52,114,102,118"

end Keymap

end Chip8
