import Chip8.Text.Blank
import Chip8.Text.DecimalDigit

/-!
# Integer numerals

An integer is written as one optional sign and a run of digits, with blanks around it. Single
underscores may stand between digits. Decimal digits of every script count; the letters of
hexadecimal are ASCII.

* `Numeral.decimal?`: base ten, with at most 4300 digits.
* `Numeral.hex?`: base sixteen, with or without `0x` in front of the digits.
* `Numeral.written?`: the usual form of an integer, which has at most 4300 digits too.
-/

namespace Chip8.Numeral

/-- The most digits that a decimal numeral may have, leading zeros included. -/
def maxDigits : Nat := 4300

/-- The usual form of an integer, if it has no more digits than a numeral may have. -/
def written? (n : Int) : Option String :=
  if n.natAbs < Nat.pow 10 maxDigits then some (toString n) else none

/-- The value of a hexadecimal letter. -/
def letterValue? (c : Char) : Option Nat :=
  if 'a' ≤ c ∧ c ≤ 'f' then some (c.toNat - 'a'.toNat + 10)
  else if 'A' ≤ c ∧ c ≤ 'F' then some (c.toNat - 'A'.toNat + 10)
  else none

/-- The value of a digit in base ten or sixteen. -/
def digitValue? (base : Nat) (c : Char) : Option Nat :=
  match DecimalDigit.value? c with
  | some d => some d
  | none => if base = 16 then letterValue? c else none

/-- The digits of a run that starts with a digit. Each underscore must stand between two digits. -/
def digits? (base : Nat) : List Char → Option (List Nat)
  | [] => none
  | c :: cs =>
    match digitValue? base c with
    | none => none
    | some d =>
      match cs with
      | [] => some [d]
      | '_' :: rest => (digits? base rest).map (d :: ·)
      | rest => (digits? base rest).map (d :: ·)

/-- The number that digits, most significant first, denote. -/
def ofDigits (base : Nat) (ds : List Nat) : Nat := ds.foldl (fun n d => base * n + d) 0

/-- Takes an optional sign off: whether it is a minus sign, and what follows. -/
def takeSign : List Char → Bool × List Char
  | '-' :: cs => (true, cs)
  | '+' :: cs => (false, cs)
  | cs => (false, cs)

/-- A number with a sign. -/
def signed (negative : Bool) (n : Nat) : Int := if negative then -n else n

/-- Takes `0x` off, with one underscore behind it if there is one. The zero may be of any script. -/
def dropBaseMark : List Char → List Char
  | z :: x :: cs =>
    if DecimalDigit.value? z = some 0 ∧ (x = 'x' ∨ x = 'X') then
      match cs with
      | '_' :: rest => rest
      | rest => rest
    else z :: x :: cs
  | cs => cs

/-- Reads an integer in base ten. -/
def decimal? (s : String) : Option Int :=
  let (negative, cs) := takeSign (Blank.strip s.toList)
  match digits? 10 cs with
  | none => none
  | some ds => if ds.length ≤ maxDigits then some (signed negative (ofDigits 10 ds)) else none

/-- Reads an integer in base sixteen. -/
def hex? (s : String) : Option Int :=
  let (negative, cs) := takeSign (Blank.strip s.toList)
  (digits? 16 (dropBaseMark cs)).map fun ds => signed negative (ofDigits 16 ds)

end Chip8.Numeral
