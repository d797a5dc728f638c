import Chip8.Memory

/-!
# Screens

A screen is a bank of cells in row-major order, one cell a pixel. Pixels are flipped one at a time;
both coordinates wrap around the edges.

* `Screen.xorPixel`: flips a pixel and tells whether it was set.
* `Screen.pixel`: looks a pixel up without wrapping.
-/

namespace Chip8

/-- A screen of `width` by `height` cells. -/
structure Screen where
  /-- The number of columns. -/
  width : Int
  /-- The number of rows. -/
  height : Int
  /-- The cells, row by row. -/
  cells : Memory
  /-- There is a cell for each pixel. -/
  size_cells : (cells.size : Int) = width * height
deriving DecidableEq

namespace Screen

/-- Why an operation on a screen is refused. -/
inductive Error where
  /-- An axis without pixels has nothing to wrap around. -/
  | emptyAxis
  /-- The bank refuses the cell. -/
  | memory (error : Memory.Error)
deriving DecidableEq, Repr

/-- The text of an error. -/
def Error.message : Error → String
  | .emptyAxis => "An axis of the screen has no pixels"
  | .memory error => error.message

/-- The number of columns of the standard screen. -/
def standardWidth : Nat := 64

/-- The number of rows of the standard screen. -/
def standardHeight : Nat := 32

/-- A screen with every pixel clear, if there is a bank for its area. -/
def blank (width height : Int) : Except Error Screen :=
  match h : Memory.ofSize (width * height) with
  | .error e => .error (.memory e)
  | .ok cells => .ok { width, height, cells, size_cells := Memory.size_of_ofSize h }

/-- The standard screen with every pixel clear. -/
def standard : Screen where
  width := standardWidth
  height := standardHeight
  cells := Memory.zeros (standardWidth * standardHeight)
  size_cells := by rw [Memory.size_zeros]; rfl

/-- The address of the cell in column `x` of row `y`. -/
def address (s : Screen) (x y : Int) : Int := y * s.width + x

/-- The screen with one cell changed. -/
def put (s : Screen) (a : Int) (b : UInt8) : Screen :=
  { s with cells := s.cells.put a b, size_cells := by rw [Memory.size_put]; exact s.size_cells }

/-- The cell in column `x` of row `y`, without wrapping. -/
def pixel (s : Screen) (x y : Int) : Except Error UInt8 :=
  (s.cells.read (s.address x y)).mapError .memory

/-- Stores a value, which must fit in a byte, in the cell at an address. -/
def write (s : Screen) (a : Int) (value : Int) : Except Error Screen :=
  match h : s.cells.write a value with
  | .error e => .error (.memory e)
  | .ok cells =>
    .ok { s with cells, size_cells := by rw [Memory.size_of_write h]; exact s.size_cells }

/-- The address of the pixel that `(x, y)` wraps around to: each coordinate is reduced by the
remainder that has the sign of the axis. -/
def wrapped (s : Screen) (x y : Int) : Int := s.address (x.fmod s.width) (y.fmod s.height)

/-- Flips the pixel that `(x, y)` wraps around to, and tells whether it was set. -/
def xorPixel (s : Screen) (x y : Int) : Except Error (Bool × Screen) :=
  if s.width = 0 ∨ s.height = 0 then .error .emptyAxis
  else
    match s.cells.read (s.wrapped x y) with
    | .error e => .error (.memory e)
    | .ok cell => .ok (cell != 0, s.put (s.wrapped x y) (cell ^^^ 1))

/-- Flips pixels in order. The screen is as far as the flips went; the result tells of each pixel
whether it was set. -/
def xorPixels (s : Screen) : List (Int × Int) → Except Error (List Bool) × Screen
  | [] => (.ok [], s)
  | (x, y) :: points =>
    match s.xorPixel x y with
    | .error e => (.error e, s)
    | .ok (hit, s) =>
      match s.xorPixels points with
      | (.error e, s) => (.error e, s)
      | (.ok hits, s) => (.ok (hit :: hits), s)

/-- The screen with every pixel clear. -/
def clear (s : Screen) : Screen :=
  { s with cells := s.cells.clear, size_cells := by rw [Memory.size_clear]; exact s.size_cells }

end Screen

end Chip8
