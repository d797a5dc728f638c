import Chip8.Machine.Dump
import Chip8.Proofs.HexField
import Chip8.Proofs.Quiet

/-!
# Reading a dump back

The dump of a machine with its stack is read from its front: behind texts that every dump has stand
the registers with two digits each, integers that end where a blank follows, and as many addresses
as the depth of the stack tells. So a dump loses nothing of what it shows.

* `Reader`: what takes a value off a text.
* `Machine.Shown`, `Machine.shown`: what a dump shows of a machine.
* `Machine.Shown.reader`, `Machine.Shown.read?`: reads it back.
* `Machine.shown_of_fullDump`: from the dump of any machine just this is read.
-/

namespace Chip8

/-! ## Taking values off a text -/

/-- Takes a value off a text, if the text begins with one. -/
abbrev Reader := StateT (List Char) Option

namespace Reader

variable {α β : Type} {p : Reader α} {text rest : List Char} {a : α}

theorem bind_eq (h : p text = some (a, rest)) (f : α → Reader β) :
    (p >>= f) text = f a rest := by
  show (p text).bind (fun r => f r.1 r.2) = _
  rw [h]
  rfl

/-- Takes a text that has to be there. -/
def expect (s : String) : Reader Unit := fun text =>
  if s.toList.isPrefixOf text then some ((), text.drop s.toList.length) else none

theorem expect_append (s : String) (rest : List Char) :
    expect s (s.toList ++ rest) = some ((), rest) := by
  have hprefix : s.toList.isPrefixOf (s.toList ++ rest) = true :=
    List.isPrefixOf_iff_prefix.2 (List.prefix_append ..)
  rw [expect, if_pos hprefix, List.drop_left]

/-- Takes a number in decimal, which is zero where there is no digit. -/
def number : Reader Nat := fun text =>
  some (Nat.ofDigitChars 10 (text.takeWhile Char.isDigit) 0, text.dropWhile Char.isDigit)

theorem number_append (n : Nat) {rest : List Char} (h : ∀ c ∈ rest.head?, c.isDigit = false) :
    number ((toString n).toList ++ rest) = some (n, rest) := by
  have hdigits : (toString n).toList = Nat.toDigits 10 n := by
    rw [Nat.toString_eq_ofList_toDigits, String.toList_ofList]
  have hall : ∀ c ∈ Nat.toDigits 10 n, c.isDigit = true := fun c hc =>
    Nat.isDigit_of_mem_toDigits (by decide) (by decide) hc
  obtain ⟨htaken, hleft⟩ := Hex.span_append hall h
  rw [hdigits, number, htaken, hleft, Nat.ofDigitChars_ten_toDigits]

/-- Takes so many bytes, two digits each. -/
def bytes : Nat → Reader (List UInt8)
  | 0 => pure []
  | n + 1 => do
    let b ← Hex.takeByte
    let bs ← bytes n
    pure (b :: bs)

theorem bytes_append (bs : List UInt8) (rest : List Char) :
    bytes bs.length ((Hex.bytes bs).toList ++ rest) = some (bs, rest) := by
  rw [Hex.toList_bytes]
  induction bs with
  | nil => rfl
  | cons b bs ih =>
    rw [List.flatMap_cons, List.append_assoc, List.length_cons, bytes,
      bind_eq (Hex.takeByte_append b _), bind_eq ih]
    rfl

/-- Takes so many addresses, each behind a blank. -/
def addresses : Nat → Reader (List UInt16)
  | 0 => pure []
  | n + 1 => do
    expect " 0x"
    let a ← Hex.takeField
    let as ← addresses n
    pure (UInt16.ofNat a.toNat :: as)

theorem stops_addresses (as : List UInt16) :
    Hex.Stops (as.flatMap fun a => (" 0x" ++ Hex.padded 3 a.toNat).toList) := by
  cases as with
  | nil => exact Hex.stops_nil
  | cons a as =>
    rw [List.flatMap_cons, String.toList_append, List.append_assoc]
    exact Hex.Stops.append (by decide) (by decide) _

theorem addresses_eq (as : List UInt16) :
    addresses as.length (as.flatMap fun a => (" 0x" ++ Hex.padded 3 a.toNat).toList) =
      some (as, []) := by
  induction as with
  | nil => rfl
  | cons a as ih =>
    rw [List.flatMap_cons, String.toList_append, Hex.toList_padded, List.append_assoc,
      List.length_cons, addresses, bind_eq (expect_append _ _),
      bind_eq (Hex.takeField_append 3 _ (stops_addresses as)), bind_eq ih, Int.toNat_natCast,
      UInt16.ofNat_toNat]
    rfl

/-- Takes the live addresses of a stack of a depth. -/
def stack : Nat → Reader (List UInt16)
  | 0 => do
    expect " (Empty)"
    pure []
  | n + 1 => addresses (n + 1)

theorem stack_eq (m : Machine) :
    stack m.stack.depth m.stackText.toList = some (m.stack.live, []) := by
  rw [← m.stack.length_live, Machine.stackText]
  cases m.stack.live with
  | nil =>
    show stack 0 " (Empty)".toList = _
    rw [← List.append_nil " (Empty)".toList, stack, bind_eq (expect_append _ _)]
    rfl
  | cons a as =>
    rw [if_neg (by simp), String.toList_join, List.flatMap_map]
    exact addresses_eq (a :: as)

end Reader

namespace Machine

open Reader (expect)

/-! ## Reading a dump -/

/-- What the dump of a machine with its stack shows. -/
structure Shown where
  /-- The registers, the first one first. -/
  v : List UInt8
  /-- The index. -/
  index : Int
  /-- The delay timer. -/
  delay : Int
  /-- The sound timer. -/
  sound : Int
  /-- The instruction pointer. -/
  ip : Int
  /-- The word fetched last. -/
  opcode : Int
  /-- The depth of the stack. -/
  depth : Nat
  /-- The live return addresses, oldest first. -/
  live : List UInt16
deriving DecidableEq, Repr

/-- What a dump shows of the machine. -/
def shown (m : Machine) : Shown where
  v := m.v.toList
  index := m.index
  delay := m.delay
  sound := m.sound
  ip := m.ip
  opcode := m.opcode
  depth := m.stack.depth
  live := m.stack.live

/-- Takes an integer in hexadecimal behind its label. -/
def Shown.field (label : String) : Reader Int := do
  expect label
  Hex.takeField

/-- Takes a dump with a note. -/
def Shown.reader (note : String) : Reader Shown := do
  expect "V: 0x"
  let v ← Reader.bytes 16
  let index ← field " I: 0x"
  let delay ← field " DT: 0x"
  let sound ← field " ST: 0x"
  let ip ← field " IP: 0x"
  let opcode ← field " OP: 0x"
  expect " IN: "
  expect note
  expect "\nSP: "
  let depth ← Reader.number
  expect "\nStack:"
  let live ← Reader.stack depth
  pure { v := v.reverse, index, delay, sound, ip, opcode, depth, live }

theorem Shown.field_append (label : String) (width : Nat) (v : Int) {next : String}
    (h : Hex.Stops next.toList) (hne : next.toList ≠ []) (rest : List Char) :
    field label (label.toList ++ (Hex.paddedChars width v ++ (next.toList ++ rest))) =
      some (v, next.toList ++ rest) := by
  rw [field, Reader.bind_eq (Reader.expect_append _ _),
    Hex.takeField_append _ _ (h.append hne rest)]

-- An instruction pointer beyond the first 4096 addresses has more digits than its width.
example : Shown.field " IP: 0x" " IP: 0x1000 OP: 0x00ee".toList =
    some (0x1000, " OP: 0x00ee".toList) := by decide +kernel

theorem toList_fullDump (m : Machine) (note : String) :
    (m.fullDump note).toList = "V: 0x".toList ++ ((Hex.bytes m.v.toList.reverse).toList ++
      (" I: 0x".toList ++ (Hex.paddedChars 4 m.index ++
      (" DT: 0x".toList ++ (Hex.paddedChars 2 m.delay ++
      (" ST: 0x".toList ++ (Hex.paddedChars 2 m.sound ++
      (" IP: 0x".toList ++ (Hex.paddedChars 3 m.ip ++
      (" OP: 0x".toList ++ (Hex.paddedChars 4 m.opcode ++
      (" IN: ".toList ++ (note.toList ++ ("\nSP: ".toList ++ ((toString m.stack.depth).toList ++
      ("\nStack:".toList ++ m.stackText.toList)))))))))))))))) := by
  unfold fullDump dump
  simp only [String.toList_append, Hex.toList_padded, List.append_assoc]

theorem Shown.reader_eq (m : Machine) (note : String) :
    reader note (m.fullDump note).toList = some (m.shown, []) := by
  have hv : m.v.toList.reverse.length = 16 := by
    rw [List.length_reverse, Vector.length_toList]
  have hbytes := Reader.bytes_append m.v.toList.reverse
  rw [hv] at hbytes
  have hdigit : ∀ c ∈ ("\nStack:".toList ++ m.stackText.toList).head?, c.isDigit = false := by
    intro c hc
    rw [List.head?_append_of_ne_nil _ (by decide)] at hc
    cases hc
    decide
  rw [toList_fullDump, reader, Reader.bind_eq (Reader.expect_append _ _), Reader.bind_eq (hbytes _),
    Reader.bind_eq (field_append _ _ _ (by decide) (by decide) _),
    Reader.bind_eq (field_append _ _ _ (by decide) (by decide) _),
    Reader.bind_eq (field_append _ _ _ (by decide) (by decide) _),
    Reader.bind_eq (field_append _ _ _ (by decide) (by decide) _),
    Reader.bind_eq (field_append _ _ _ (by decide) (by decide) _),
    Reader.bind_eq (Reader.expect_append _ _), Reader.bind_eq (Reader.expect_append _ _),
    Reader.bind_eq (Reader.expect_append _ _), Reader.bind_eq (Reader.number_append _ hdigit),
    Reader.bind_eq (Reader.expect_append _ _), Reader.bind_eq (Reader.stack_eq m),
    List.reverse_reverse]
  rfl

/-- Reads a dump with a note, behind a title. -/
def Shown.read? (title note text : String) : Option Shown :=
  (do expect title; reader note : Reader Shown).run' text.toList

theorem Shown.read?_append (title : String) (m : Machine) (note : String) :
    read? title note (title ++ m.fullDump note) = some m.shown := by
  have hread : (do expect title; reader note : Reader Shown)
      (title ++ m.fullDump note).toList = some (m.shown, []) := by
    rw [String.toList_append, Reader.bind_eq (Reader.expect_append _ _), reader_eq]
  rw [read?, StateT.run', hread]
  rfl

/-- Two machines have one dump iff it shows the same of them. -/
theorem fullDump_eq_iff {m m' : Machine} {note : String} :
    m.fullDump note = m'.fullDump note ↔ m.shown = m'.shown := by
  constructor
  · intro h
    have hread := Shown.read?_append "" m note
    rw [h, Shown.read?_append] at hread
    exact (Option.some.inj hread).symm
  · intro h
    obtain ⟨hv, hindex, hdelay, hsound, hip, hopcode, hdepth, hlive⟩ := Shown.mk.inj h
    unfold fullDump dump stackText
    rw [hv, hindex, hdelay, hsound, hip, hopcode, hdepth, hlive]

theorem shown_eq_iff {m m' : Machine} :
    m.shown = m'.shown ↔ m.v = m'.v ∧ m.index = m'.index ∧ m.delay = m'.delay ∧
      m.sound = m'.sound ∧ m.ip = m'.ip ∧ m.opcode = m'.opcode ∧
      m.stack.depth = m'.stack.depth ∧ m.stack.live = m'.stack.live := by
  rw [shown, shown, Shown.mk.injEq, Vector.toList_inj]

end Machine

/-- The error that is reported when a program goes wrong shows the machine. -/
theorem Session.read?_of_cycle {s s' : Session} {f : Fault} (h : s.cycle = (.error (.fault f), s'))
    (hf : (∃ opcode address, f = .decode opcode address) ∨ ∃ e, f = .stack e) :
    ∃ entry, s'.emulator.errors = s.emulator.errors ++ [entry] ∧
      Machine.Shown.read? "Emulation halted.\n" "???" entry.text =
        some s'.emulator.machine.shown := by
  have herrors := errors_cycle h
  obtain ⟨opcode, address, rfl⟩ | ⟨e, rfl⟩ := hf
  · exact ⟨_, herrors, Machine.Shown.read?_append _ _ _⟩
  · exact ⟨_, herrors, Machine.Shown.read?_append _ _ _⟩

/-- **Dumps lose nothing.** From the dump of any machine, behind any title and with any note, just
what it shows is read: the registers, the index, both timers, the instruction pointer, the word
fetched last, the depth of the stack and its live addresses in order. So two machines with one dump
agree on all of these. When a program ends with a word that is not an instruction or with a stack
that refuses, they are read from the error that is reported. -/
theorem Machine.shown_of_fullDump :
    (∀ (title note : String) (m : Machine),
      Shown.read? title note (title ++ m.fullDump note) = some m.shown) ∧
    (∀ (note : String) (m m' : Machine), m.fullDump note = m'.fullDump note ↔
      m.v = m'.v ∧ m.index = m'.index ∧ m.delay = m'.delay ∧ m.sound = m'.sound ∧ m.ip = m'.ip ∧
        m.opcode = m'.opcode ∧ m.stack.depth = m'.stack.depth ∧ m.stack.live = m'.stack.live) ∧
    ∀ (s s' : Session) (f : Fault), s.cycle = (.error (.fault f), s') →
      (∃ opcode address, f = .decode opcode address) ∨ (∃ e, f = .stack e) →
      ∃ entry, s'.emulator.errors = s.emulator.errors ++ [entry] ∧
        Shown.read? "Emulation halted.\n" "???" entry.text = some s'.emulator.machine.shown :=
  ⟨fun title note m => Shown.read?_append title m note,
    fun _ _ _ => fullDump_eq_iff.trans shown_eq_iff,
    fun _ _ _ h hf => Session.read?_of_cycle h hf⟩

end Chip8
