import Chip8.Host

/-!
# Surroundings

What a launch finds on the host: windows, files, random bytes and events.

* `Surroundings.read`: reads a file.
-/

namespace Chip8

/-- Why a file cannot be read. -/
inductive FileError where
  /-- The name holds a NUL, as no name of a file does. -/
  | badName
  /-- There is no such file. -/
  | notFound
  /-- The name is that of a directory. -/
  | directory
  /-- The name leads through a file as if it were a directory. -/
  | notDirectory
  /-- The host has another reason. -/
  | unreadable
deriving DecidableEq, Repr

/-- The text of an error. -/
def FileError.message : FileError → String
  | .badName => "The file name holds a NUL"
  | .notFound => "There is no such file"
  | .directory => "The file is a directory"
  | .notDirectory => "The file name leads through a file"
  | .unreadable => "The file cannot be read"

/-- What a launch finds on the host. -/
structure Surroundings where
  /-- The window system, if there is one. -/
  windows : Option WindowSystem := none
  /-- The bytes of the files. -/
  file : String → Except FileError (List UInt8)
  /-- The random bytes. -/
  random : RandomSource
  /-- What happens to an open window, a list for each poll to come. -/
  events : List (List HostEvent) := []

/-- Reads a file. A name with a NUL in it is refused before the host is asked. -/
def Surroundings.read (w : Surroundings) (name : String) : Except FileError (List UInt8) :=
  if '\x00' ∈ name.toList then .error .badName else w.file name

end Chip8
