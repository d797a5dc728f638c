import Chip8.Text.Hex
import Chip8.Text.Printable

/-!
# Quoted text

Text in a message stands between quotation marks, with everything that is not printable written
as an escape.

* `Quoted.quote`: single marks, unless the text holds a single mark and no double one.
-/

namespace Chip8.Quoted

/-- One character between the given marks: the mark and the backslash stand behind a backslash,
line ends and tabs have letters, other characters that are not printable their code point at two,
four or eight digits. -/
def escape (mark : Char) (c : Char) : List Char :=
  if c = mark ∨ c = '\\' then ['\\', c]
  else if c = '\n' then ['\\', 'n']
  else if c = '\r' then ['\\', 'r']
  else if c = '\t' then ['\\', 't']
  else if Printable.isPrintable c then [c]
  else if c.toNat < 0x100 then '\\' :: 'x' :: Hex.paddedChars 2 c.toNat
  else if c.toNat < 0x10000 then '\\' :: 'u' :: Hex.paddedChars 4 c.toNat
  else '\\' :: 'U' :: Hex.paddedChars 8 c.toNat

/-- The mark around a text. -/
def mark (cs : List Char) : Char := if '\'' ∈ cs ∧ '"' ∉ cs then '"' else '\''

/-- A text between quotation marks. -/
def quote (s : String) : String :=
  let cs := s.toList
  String.ofList (mark cs :: cs.flatMap (escape (mark cs)) ++ [mark cs])

end Chip8.Quoted
