import Chip8.Proofs.Memory

/-!
# Banks as finite maps

A bank gives each of its addresses the byte that was stored there last. Calls that are refused take
no part in that. Blocks are stored as a whole or not at all, since a block that starts below zero
never fills the range it is given; but a read from below zero is not refused where it ends inside
the bank.

* `Memory.get_putBlock`: a block is seen at its own addresses and nowhere else.
* `Memory.writeBlock_eq`, `Memory.readBlock_eq`: what becomes of blocks that are not empty.
* `Memory.change`, `Memory.after`: calls that store, one and several.
* `Memory.get_after`: the last call that was not refused and covers an address decides.
* `Memory.reads_after`: a new bank behind any calls.
* `Memory.readBlock_whole_iff`: the reads of blocks that give all of the block or are refused.
-/

namespace Chip8.Memory

variable {m : Memory} {a n : Int}

/-! ## Ranges -/

/-- The end of a range that ends inside the bank is its own place. -/
theorem position_end (h : m.InRange (a + n - 1)) : m.position (a + n) = (a + n).toNat := by
  obtain ⟨hlow, hhigh⟩ := h
  unfold position
  rw [if_neg (by omega)]
  omega

/-- The start of a range that ends inside the bank is its own place, unless it is below zero. Then
it counts from the end of the bank, and from the start of it if that is below zero again. -/
theorem position_start (hn : 1 ≤ n) (h : m.InRange (a + n - 1)) :
    m.position a = if 0 ≤ a then a.toNat else (max (a + m.size) 0).toNat := by
  obtain ⟨hlow, hhigh⟩ := h
  unfold position
  split
  · rw [if_neg (by omega)]
    omega
  · rw [if_pos (by omega)]
    omega

/-- A range that ends inside the bank is as long as it should be iff it does not start below
zero. -/
theorem position_sub_eq_iff (hn : 1 ≤ n) (h : m.InRange (a + n - 1)) :
    ((m.position (a + n) - m.position a : Nat) : Int) = n ↔ 0 ≤ a := by
  rw [position_end h, position_start hn h]
  obtain ⟨hlow, hhigh⟩ := h
  split <;> omega

theorem fits_iff_inRange (hn : 1 ≤ n) : m.Fits a n ↔ 0 ≤ a ∧ m.InRange (a + n - 1) := by
  unfold Fits InRange
  omega

/-! ## Blocks that are stored -/

/-- The byte of a block at an address, if the block covers it. -/
def blockAt? (a : Int) (block : List UInt8) (c : Int) : Option UInt8 :=
  if a ≤ c then block[(c - a).toNat]? else none

/-- A block that lies inside the bank is seen at its own addresses and nowhere else. -/
theorem get_putBlock {block : List UInt8} (h : m.Fits a block.length) (c : Int) :
    (m.putBlock a block).get c = (blockAt? a block c).getD (m.get c) := by
  induction block generalizing m a with
  | nil => simp [putBlock, blockAt?]
  | cons b bs ih =>
    rw [List.length_cons] at h
    have hrest : (m.put a b).Fits (a + 1) bs.length := by
      unfold Fits at h ⊢
      rw [size_put]
      omega
    have hfirst : m.InRange a := by
      unfold Fits at h
      unfold InRange
      omega
    rw [putBlock, ih hrest, get_put]
    unfold blockAt?
    obtain hlt | rfl | hgt := Int.lt_trichotomy c a
    · have hbefore : ¬ a ≤ c := by omega
      have hne : c ≠ a := by omega
      have hafter : ¬ a + 1 ≤ c := by omega
      simp only [hbefore, hne, hafter, false_and, ↓reduceIte]
    · have hafter : ¬ c + 1 ≤ c := by omega
      simp [hafter, hfirst]
    · have hbefore : a ≤ c := by omega
      have hne : c ≠ a := by omega
      have hafter : a + 1 ≤ c := by omega
      have hindex : (c - a).toNat = (c - (a + 1)).toNat + 1 := by omega
      simp only [hbefore, hne, hafter, hindex, false_and, ↓reduceIte, List.getElem?_cons_succ]

/-- A block that is not empty is refused for its last address, then for its first. -/
theorem writeBlock_eq {block : List UInt8} (h : block ≠ []) :
    m.writeBlock a block =
      if ¬ m.InRange (a + block.length - 1) then .error (.outOfRange (a + block.length - 1))
      else if 0 ≤ a then .ok (m.putBlock a block)
      else .error .lengthMismatch := by
  have hlength : (1 : Int) ≤ block.length := by
    have := List.length_pos_iff.2 h
    omega
  rw [writeBlock]
  split
  · rfl
  · rename_i hlast
    have hfills := position_sub_eq_iff hlength (Decidable.not_not.1 hlast)
    rw [Int.ofNat_inj] at hfills
    simp only [hfills]

theorem exists_writeBlock_iff {block : List UInt8} (h : block ≠ []) :
    (∃ m', m.writeBlock a block = .ok m') ↔ m.Fits a block.length := by
  have hlength : (1 : Int) ≤ block.length := by
    have := List.length_pos_iff.2 h
    omega
  rw [writeBlock_eq h, fits_iff_inRange hlength]
  by_cases hlast : m.InRange (a + block.length - 1) <;> by_cases ha : 0 ≤ a <;> simp [hlast, ha]

/-- A block that is not refused is stored, and lies inside the bank unless it is empty. -/
theorem of_writeBlock {m' : Memory} {block : List UInt8} (h : m.writeBlock a block = .ok m') :
    m' = m.putBlock a block ∧ (block = [] ∨ m.Fits a block.length) := by
  refine ⟨?_, ?_⟩
  · unfold writeBlock at h
    simp only at h
    split at h
    · cases h
    · split at h
      · cases h
        rfl
      · cases h
  · obtain rfl | hne := Decidable.em (block = [])
    · exact .inl rfl
    · exact .inr ((exists_writeBlock_iff hne).1 ⟨m', h⟩)

/-! ## Calls -/

/-- A call that stores to a bank. -/
inductive Change where
  /-- A value at an address. -/
  | write (a value : Int)
  /-- A block from an address on. -/
  | writeBlock (a : Int) (block : List UInt8)
  /-- Zeros everywhere. -/
  | clear

/-- The byte that a call stores at an address, if it covers it. -/
def Change.byteAt? (c : Int) : Change → Option UInt8
  | .write a value => if c = a then some (UInt8.ofInt value) else none
  | .writeBlock a block => blockAt? a block c
  | .clear => some 0

/-- The bank that a call makes, unless it is refused. -/
def change (m : Memory) : Change → Except Error Memory
  | .write a value => m.write a value
  | .writeBlock a block => m.writeBlock a block
  | .clear => .ok m.clear

/-- The bank behind a call. A call that is refused leaves it as it is. -/
def next (m : Memory) (c : Change) : Memory :=
  match m.change c with
  | .ok m' => m'
  | .error _ => m

/-- The bank behind calls. -/
def after (m : Memory) (calls : List Change) : Memory := calls.foldl next m

/-- The calls that are not refused. -/
def accepted (m : Memory) : List Change → List Change
  | [] => []
  | c :: calls =>
    match m.change c with
    | .ok m' => c :: m'.accepted calls
    | .error _ => m.accepted calls

theorem exists_write_iff {value : Int} :
    (∃ m', m.write a value = .ok m') ↔ m.InRange a ∧ 0 ≤ value ∧ value ≤ 255 := by
  unfold write
  by_cases ha : m.InRange a <;> by_cases hv : 0 ≤ value ∧ value ≤ 255 <;> simp [ha, hv]

theorem size_change {m' : Memory} {c : Change} (h : m.change c = .ok m') : m'.size = m.size := by
  cases c with
  | write a value => exact size_of_write h
  | writeBlock a block => rw [(of_writeBlock h).1, size_putBlock]
  | clear =>
    cases h
    exact size_clear m

/-- A call that is not refused stores its byte at each address that it covers, and nothing
elsewhere. -/
theorem get_change {m' : Memory} {c : Change} (h : m.change c = .ok m') (b : Int) :
    m'.get b = (c.byteAt? b).getD (m.get b) := by
  cases c with
  | write a value =>
    obtain ⟨ha, hlow, hhigh⟩ := exists_write_iff.1 ⟨m', h⟩
    have hm' : m.put a (UInt8.ofInt value) = m' := by
      simpa [change, write, ha, hlow, hhigh] using h
    rw [← hm', get_put, Change.byteAt?]
    by_cases hb : b = a <;> simp [hb, ha]
  | writeBlock a block =>
    obtain ⟨rfl, rfl | hfits⟩ := of_writeBlock h
    · simp [putBlock, Change.byteAt?, blockAt?]
    · exact get_putBlock hfits b
  | clear =>
    cases h
    exact get_zeros m.size b

theorem change_error {c : Change} {e : Error} (h : m.change c = .error e) :
    (∃ a, e = .outOfRange a) ∨ (∃ value, e = .notAByte value) ∨ e = .lengthMismatch := by
  cases c with
  | write a value =>
    simp only [change, write] at h
    split at h
    · cases h
      exact .inl ⟨a, rfl⟩
    · split at h
      · cases h
      · cases h
        exact .inr (.inl ⟨value, rfl⟩)
  | writeBlock a block =>
    simp only [change, writeBlock] at h
    split at h
    · cases h
      exact .inl ⟨_, rfl⟩
    · split at h
      · cases h
      · cases h
        exact .inr (.inr rfl)
  | clear => cases h

theorem size_after (calls : List Change) : (m.after calls).size = m.size := by
  induction calls generalizing m with
  | nil => rfl
  | cons c calls ih =>
    show ((m.next c).after calls).size = m.size
    rw [ih, next]
    split
    · rename_i m' hc
      exact size_change hc
    · rfl

/-- The byte at an address is the one of the last call that is not refused and covers the address.
Without such a call it is the byte that was there. -/
theorem get_after (calls : List Change) (b : Int) :
    (m.after calls).get b =
      ((m.accepted calls).filterMap (Change.byteAt? b)).getLast?.getD (m.get b) := by
  induction calls generalizing m with
  | nil => rfl
  | cons c calls ih =>
    show ((m.next c).after calls).get b = _
    rw [ih, next, accepted]
    cases hc : m.change c with
    | error e => rfl
    | ok m' =>
      simp only [List.filterMap_cons, get_change hc b]
      cases c.byteAt? b with
      | none => rfl
      | some byte =>
        rw [List.getLast?_cons]
        rfl

/-- There is a new bank of each size, which holds zeros. -/
theorem ofSize_natCast (size : Nat) : ofSize size = .ok (zeros size) := by
  have hsize : ¬ (size : Int) < 0 := by omega
  rw [ofSize, if_neg hsize, Int.toNat_natCast]

/-- **Finite maps.** Behind any calls, a new bank gives at each of its addresses the byte of the
last call that was not refused and covers the address, or zero without such a call, and it refuses
all other addresses. A call that is refused changes nothing. A value is stored iff the address is
one of the bank's and the value is a byte. A block that is not empty is stored iff it fits, and then
takes the place of as many cells and of no other. -/
theorem reads_after (size : Nat) (calls : List Change) :
    let m := (zeros size).after calls
    ofSize size = .ok (zeros size) ∧ m.size = size ∧
      (∀ a : Int, 0 ≤ a → a < size → m.read a =
        .ok ((((zeros size).accepted calls).filterMap (Change.byteAt? a)).getLast?.getD 0)) ∧
      (∀ a : Int, ¬ (0 ≤ a ∧ a < size) → m.read a = .error (.outOfRange a)) ∧
      (∀ c e, m.change c = .error e → m.next c = m ∧
        ((∃ a, e = .outOfRange a) ∨ (∃ value, e = .notAByte value) ∨ e = .lengthMismatch)) ∧
      (∀ a value : Int, (∃ m', m.change (.write a value) = .ok m') ↔
        (0 ≤ a ∧ a < size) ∧ 0 ≤ value ∧ value ≤ 255) ∧
      (∃ m', m.change .clear = .ok m') ∧
      ∀ (a : Int) (block : List UInt8), block ≠ [] →
        ((∃ m', m.change (.writeBlock a block) = .ok m') ↔ m.Fits a block.length) ∧
          ∀ m', m.change (.writeBlock a block) = .ok m' →
            (∀ k (hk : k < block.length), m'.get (a + k) = block[k]) ∧
              ∀ c : Int, c < a ∨ a + block.length ≤ c → m'.get c = m.get c := by
  intro m
  have hsize : m.size = size := (size_after calls).trans (size_zeros size)
  have hrange (a : Int) : m.InRange a ↔ 0 ≤ a ∧ a < size := by rw [InRange, hsize]
  refine ⟨ofSize_natCast size, hsize, ?_, ?_, ?_, ?_, ⟨_, rfl⟩, ?_⟩
  · intro a hlow hhigh
    rw [read, if_pos ((hrange a).2 ⟨hlow, hhigh⟩), get_after, get_zeros]
  · intro a ha
    rw [read, if_neg (mt (hrange a).1 ha)]
  · intro c e hc
    exact ⟨by rw [next, hc], change_error hc⟩
  · intro a value
    rw [← hrange]
    exact exists_write_iff
  · intro a block hblock
    refine ⟨exists_writeBlock_iff hblock, fun m' hm' => ?_⟩
    have hget := get_change hm'
    refine ⟨fun k hk => ?_, fun c hc => ?_⟩
    · have hindex : (a + k - a).toNat = k := by omega
      rw [hget, Change.byteAt?, blockAt?, if_pos (by omega), hindex, List.getElem?_eq_getElem hk]
      rfl
    · rw [hget, Change.byteAt?, blockAt?]
      split
      · rw [List.getElem?_eq_none (by omega)]
        rfl
      · rfl

/-! ## Blocks that are read -/

/-- The bytes at as many addresses from one on. -/
def bytesFrom (m : Memory) (a : Int) (count : Nat) : List UInt8 :=
  (List.range count).map fun k : Nat => m.get (a + k)

@[simp] theorem length_bytesFrom (m : Memory) (a : Int) (count : Nat) :
    (m.bytesFrom a count).length = count := by simp [bytesFrom]

theorem getElem_bytesFrom {count k : Nat} (hk : k < (m.bytesFrom a count).length) :
    (m.bytesFrom a count)[k] = m.get (a + k) := by simp [bytesFrom]

/-- A range of cells that ends inside the bank, byte by byte. -/
theorem toList_extract {i j : Nat} (hj : j ≤ m.size) :
    (m.cells.extract i j).toList = m.bytesFrom i (j - i) := by
  have hlength : (m.cells.extract i j).toList.length = j - i := by
    rw [Array.length_toList, Array.size_extract]
    unfold size at hj
    omega
  refine List.ext_getElem (by rw [hlength, length_bytesFrom]) fun k hk hk' => ?_
  have hcell : i + k < m.cells.size := by
    rw [hlength] at hk
    unfold size at hj
    omega
  rw [getElem_bytesFrom, ← Int.natCast_add, m.get_natCast hcell, Array.getElem_toList,
    Array.getElem_extract]

/-- A block that is not empty is refused for its last address only. From an address that is not
below zero it is read as a whole. Otherwise it is read from where that address is counted from the
end of the bank, or from the start of the bank if that is below zero again. -/
theorem readBlock_eq (hn : 1 ≤ n) :
    m.readBlock a n =
      if ¬ m.InRange (a + n - 1) then .error (.outOfRange (a + n - 1))
      else if 0 ≤ a then .ok (m.bytesFrom a n.toNat)
      else .ok (m.bytesFrom (max (a + m.size) 0) (a + n - max (a + m.size) 0).toNat) := by
  unfold readBlock
  by_cases hlast : m.InRange (a + n - 1)
  · have hend : (a + n).toNat ≤ m.size := by
      obtain ⟨hlow, hhigh⟩ := hlast
      omega
    rw [if_pos hlast, if_neg (not_not_intro hlast), position_end hlast, toList_extract hend,
      position_start hn hlast]
    split
    · rename_i ha
      have hcount : (a + n).toNat - a.toNat = n.toNat := by omega
      rw [hcount, Int.toNat_of_nonneg ha]
    · have hstart : (0 : Int) ≤ max (a + m.size) 0 := by omega
      have hcount : (a + n).toNat - (max (a + m.size) 0).toNat =
          (a + n - max (a + m.size) 0).toNat := by omega
      rw [hcount, Int.toNat_of_nonneg hstart]
  · rw [if_neg hlast, if_pos hlast]

/-- A block that lies inside the bank is read as a whole, and any other is refused. -/
def ReadsWhole (m : Memory) (a n : Int) : Prop :=
  if m.Fits a n then m.readBlock a n = .ok (m.bytesFrom a n.toNat)
  else ∃ b, m.readBlock a n = .error (.outOfRange b)

/-- **Reading blocks.** A block is read as a whole or refused iff it does not both start below zero
and end inside the bank. One that does is not refused: it gives fewer bytes than were asked for, the
ones up to its end from where its start is counted from the end of the bank. -/
theorem readBlock_whole_iff (m : Memory) (a : Int) {n : Int} (hn : 1 ≤ n) :
    (m.ReadsWhole a n ↔ 0 ≤ a ∨ ¬ m.InRange (a + n - 1)) ∧
      (a < 0 → m.InRange (a + n - 1) → ∃ bytes, m.readBlock a n = .ok bytes ∧
        bytes.length < n ∧ (bytes.length : Int) = max (a + n - max (a + m.size) 0) 0 ∧
        ∀ k (hk : k < bytes.length), bytes[k] = m.get (max (a + m.size) 0 + k)) := by
  refine ⟨?_, fun ha hlast => ?_⟩
  · simp only [ReadsWhole, fits_iff_inRange hn, readBlock_eq hn]
    by_cases hlast : m.InRange (a + n - 1) <;> by_cases ha : 0 ≤ a <;> simp [hlast, ha]
  · rw [readBlock_eq hn, if_neg (not_not_intro hlast), if_neg (by omega)]
    obtain ⟨hlow, hhigh⟩ := hlast
    refine ⟨_, rfl, ?_, ?_, fun k hk => getElem_bytesFrom hk⟩
    · rw [length_bytesFrom]
      omega
    · rw [length_bytesFrom]
      omega

/-- A block from below zero up to the end of the bank: its only byte is the last of the bank. -/
theorem readBlock_whole_iff_below :
    let m := (zeros 5).put 4 171
    (1 : Int) ≤ 6 ∧ (-1 : Int) < 0 ∧ m.InRange (-1 + 6 - 1) ∧ ¬ m.ReadsWhole (-1) 6 ∧
      ∃ bytes, m.readBlock (-1) 6 = .ok bytes ∧ bytes.length < (6 : Int) ∧
        (bytes.length : Int) = 1 := by
  intro m
  have hlast : m.InRange (-1 + 6 - 1) := by decide
  obtain ⟨hwhole, hbelow⟩ := readBlock_whole_iff m (-1) (n := 6) (by decide)
  obtain ⟨bytes, hread, hless, hlength, -⟩ := hbelow (by decide) hlast
  refine ⟨by decide, by decide, hlast, fun h => ?_, bytes, hread, hless, hlength⟩
  exact (hwhole.1 h).elim (by decide) (fun h => h hlast)

/-- A block that starts below zero is not refused, and is not read as a whole. -/
theorem readBlock_below :
    let m := (zeros 5).put 4 171
    ¬ m.Fits (-1) 6 ∧ m.readBlock (-1) 6 = .ok [171] ∧ ¬ m.ReadsWhole (-1) 6 := by
  intro m
  have hfits : ¬ m.Fits (-1) 6 := by decide
  have hread : m.readBlock (-1) 6 = .ok [171] := rfl
  refine ⟨hfits, hread, fun h => ?_⟩
  rw [ReadsWhole, if_neg hfits, hread] at h
  obtain ⟨_, h⟩ := h
  cases h

end Chip8.Memory
