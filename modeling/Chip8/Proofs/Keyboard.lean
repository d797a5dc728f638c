import Chip8.Keypad.Basic
import Mathlib.Algebra.Ring.Parity
import Mathlib.Data.List.Nodup

/-!
# Keypads and keyboards

A keypad is determined by what happens on the keyboard, however that is split into polls: each key
by the last event with its code, and the pause switch by how often P came up.

* `Keymap.code`, `Keymap.keyOf?_eq_some_iff`: the code of a key, and the key of a code.
* `Keymap.tells?`: what an event tells of a key.
* `Keypad.take`, `Keypad.pollHost_eq`: a poll takes its events one by one.
* `Keypad.isHeld_takeAll`, `Keypad.paused_takeAll`: a key and the pause switch behind events.
* `Keypad.polls`: polls in order.
* `Keypad.polls_keyboard`: a new keypad behind any polls.
-/

namespace Chip8

namespace Keymap

variable {m : Keymap} {key : Fin 16} {c : Int}

/-! ## Codes and keys -/

/-- The host code of a key. -/
def code (m : Keymap) (key : Fin 16) : Int := m.codes.get (key.cast m.length_codes.symm)

/-- A code stands for the key whose code it is. -/
theorem keyOf?_eq_some_iff : m.keyOf? c = some key ↔ m.code key = c := by
  rw [keyOf?, Option.map_eq_some_iff]
  constructor
  · rintro ⟨i, hi, rfl⟩
    exact (List.finIdxOf?_eq_some_iff.1 hi).1
  · intro h
    refine ⟨key.cast m.length_codes.symm, List.finIdxOf?_eq_some_iff.2 ⟨h, ?_⟩, rfl⟩
    intro j hj heq
    have hij : j = key.cast m.length_codes.symm :=
      List.nodup_iff_injective_get.1 m.nodup_codes (heq.trans h.symm)
    exact absurd hij (Fin.ne_of_lt hj)

theorem keyOf?_eq_none_iff : m.keyOf? c = none ↔ c ∉ m.codes := by
  rw [keyOf?, Option.map_eq_none_iff, List.finIdxOf?_eq_none_iff]

/-! ## What events mean -/

/-- What an event tells of a key: that it is held from then on, or that it is not. -/
def tells? (m : Keymap) (key : Fin 16) : HostEvent → Option Bool
  | .keyDown c => if c = m.code key ∧ c ≠ pauseCode then some true else none
  | .keyUp c => if c = m.code key ∧ c ≠ escapeCode ∧ c ≠ pauseCode then some false else none
  | .close | .other => none

/-- The event means nothing to the keypad: it is not of a key, or of one with no meaning. -/
def Ignores (m : Keymap) : HostEvent → Prop
  | .keyDown c => c = pauseCode ∨ c ∉ m.codes
  | .keyUp c => c ≠ escapeCode ∧ c ≠ pauseCode ∧ c ∉ m.codes
  | .close => False
  | .other => True

theorem signal?_of_ignores {ev : HostEvent} (h : m.Ignores ev) : m.signal? ev = none := by
  cases ev with
  | keyDown c =>
    obtain rfl | hc := h
    · simp [signal?]
    · simp [signal?, keyOf?_eq_none_iff.2 hc]
  | keyUp c =>
    obtain ⟨hescape, hpause, hc⟩ := h
    simp [signal?, hescape, hpause, keyOf?_eq_none_iff.2 hc]
  | close => exact h.elim
  | other => rfl

theorem signal?_eq_quit_iff {ev : HostEvent} :
    m.signal? ev = some .quit ↔ ev = .close ∨ ev = .keyUp escapeCode := by
  cases ev with
  | keyDown c =>
    simp only [signal?]
    split <;> simp
  | keyUp c =>
    by_cases hescape : c = escapeCode
    · simp [signal?, hescape]
    · by_cases hpause : c = pauseCode <;> simp [signal?, hescape, hpause]
  | close | other => simp [signal?]

end Keymap

namespace Keypad

/-! ## One event -/

/-- What an event on the keyboard does to a keypad. -/
def take (p : Keypad) (ev : HostEvent) : Keypad :=
  match p.keymap.signal? ev with
  | some s => p.apply s
  | none => p

/-- The keypad with the key of a code held or not, if there is one. -/
def setCode (p : Keypad) (c : Int) (down : Bool) : Keypad :=
  match p.keymap.keyOf? c with
  | some key => p.setHeld key down
  | none => p

theorem take_keyDown (p : Keypad) (c : Int) :
    p.take (.keyDown c) = if c = Keymap.pauseCode then p else p.setCode c true := by
  simp only [take, Keymap.signal?, setCode]
  split_ifs
  · rfl
  · cases p.keymap.keyOf? c <;> rfl

theorem take_keyUp (p : Keypad) (c : Int) :
    p.take (.keyUp c) =
      if c = Keymap.escapeCode then p
      else if c = Keymap.pauseCode then p.togglePause
      else p.setCode c false := by
  simp only [take, Keymap.signal?, setCode]
  split_ifs
  · rfl
  · rfl
  · cases p.keymap.keyOf? c <;> rfl

@[simp] theorem keymap_take (p : Keypad) (ev : HostEvent) : (p.take ev).keymap = p.keymap := by
  unfold take
  split
  · rename_i s _
    cases s <;> rfl
  · rfl

theorem isHeld_setCode (p : Keypad) (c : Int) (down : Bool) (key : Fin 16) :
    (p.setCode c down).isHeld key = if c = p.keymap.code key then down else p.isHeld key := by
  have hget : ∀ v : Vector Bool 16, v.get key = v[key.val] := fun _ => rfl
  unfold setCode
  cases hkey : p.keymap.keyOf? c with
  | none =>
    have hne : c ≠ p.keymap.code key := by
      intro hc
      rw [Keymap.keyOf?_eq_some_iff.2 hc.symm] at hkey
      cases hkey
    rw [if_neg hne]
  | some k =>
    have hiff : c = p.keymap.code key ↔ k.val = key.val := by
      rw [eq_comm, ← Keymap.keyOf?_eq_some_iff, hkey, Option.some.injEq, Fin.ext_iff]
    simp only [isHeld, setHeld, hget, Vector.getElem_setIfInBounds, hiff]

theorem paused_setCode (p : Keypad) (c : Int) (down : Bool) :
    (p.setCode c down).paused = p.paused := by
  unfold setCode
  split <;> rfl

theorem isHeld_take (p : Keypad) (ev : HostEvent) (key : Fin 16) :
    (p.take ev).isHeld key = (p.keymap.tells? key ev).getD (p.isHeld key) := by
  cases ev with
  | keyDown c =>
    rw [take_keyDown, Keymap.tells?]
    by_cases hpause : c = Keymap.pauseCode
    · rw [if_pos hpause, if_neg fun h => h.2 hpause]
      rfl
    · rw [if_neg hpause, isHeld_setCode]
      by_cases hc : c = p.keymap.code key
      · rw [if_pos hc, if_pos ⟨hc, hpause⟩]
        rfl
      · rw [if_neg hc, if_neg fun h => hc h.1]
        rfl
  | keyUp c =>
    rw [take_keyUp, Keymap.tells?]
    by_cases hescape : c = Keymap.escapeCode
    · rw [if_pos hescape, if_neg fun h => h.2.1 hescape]
      rfl
    · rw [if_neg hescape]
      by_cases hpause : c = Keymap.pauseCode
      · rw [if_pos hpause, if_neg fun h => h.2.2 hpause]
        rfl
      · rw [if_neg hpause, isHeld_setCode]
        by_cases hc : c = p.keymap.code key
        · rw [if_pos hc, if_pos ⟨hc, hescape, hpause⟩]
          rfl
        · rw [if_neg hc, if_neg fun h => hc h.1]
          rfl
  | close | other => rfl

theorem paused_take (p : Keypad) (ev : HostEvent) :
    (p.take ev).paused = if ev = .keyUp Keymap.pauseCode then !p.paused else p.paused := by
  cases ev with
  | keyDown c =>
    have hne : HostEvent.keyDown c ≠ .keyUp Keymap.pauseCode := nofun
    rw [take_keyDown, if_neg hne]
    split
    · rfl
    · exact p.paused_setCode c true
  | keyUp c =>
    rw [take_keyUp]
    by_cases hescape : c = Keymap.escapeCode
    · subst hescape
      rfl
    · rw [if_neg hescape]
      by_cases hpause : c = Keymap.pauseCode
      · subst hpause
        rfl
      · rw [if_neg hpause, if_neg (by simpa using hpause)]
        exact p.paused_setCode c false
  | close | other => rfl

/-! ## Events in order -/

theorem foldl_apply_signal? (p : Keypad) (events : List HostEvent) :
    (events.filterMap p.keymap.signal?).foldl apply p = events.foldl take p := by
  induction events generalizing p with
  | nil => rfl
  | cons ev events ih =>
    rw [List.foldl_cons, ← ih (p.take ev), keymap_take]
    simp only [List.filterMap_cons, take]
    cases p.keymap.signal? ev <;> rfl

theorem quit_mem_signals_iff (m : Keymap) (events : List HostEvent) :
    Signal.quit ∈ events.filterMap m.signal? ↔
      .close ∈ events ∨ .keyUp Keymap.escapeCode ∈ events := by
  simp only [List.mem_filterMap, Keymap.signal?_eq_quit_iff]
  constructor
  · rintro ⟨ev, hev, rfl | rfl⟩
    · exact .inl hev
    · exact .inr hev
  · rintro (hev | hev)
    · exact ⟨_, hev, .inl rfl⟩
    · exact ⟨_, hev, .inr rfl⟩

/-- A poll takes all of its events one by one, and tells whether one of them asks to quit. -/
theorem pollHost_eq (p : Keypad) (events : List HostEvent) :
    p.pollHost events =
      (decide (.close ∈ events ∨ .keyUp Keymap.escapeCode ∈ events), events.foldl take p) := by
  rw [pollHost, poll, foldl_apply_signal?, List.contains_eq_mem]
  simp only [quit_mem_signals_iff]

/-- The last event that tells something of a key decides, and without one it stays as it was. -/
theorem isHeld_takeAll (p : Keypad) (events : List HostEvent) (key : Fin 16) :
    (events.foldl take p).isHeld key =
      (events.filterMap (p.keymap.tells? key)).getLast?.getD (p.isHeld key) := by
  induction events generalizing p with
  | nil => rfl
  | cons ev events ih =>
    rw [List.foldl_cons, ih, keymap_take, isHeld_take, List.filterMap_cons]
    cases p.keymap.tells? key ev with
    | none => rfl
    | some down =>
      rw [List.getLast?_cons]
      rfl

/-- The pause switch is turned over each time that P comes up. -/
theorem paused_takeAll (p : Keypad) (events : List HostEvent) :
    (events.foldl take p).paused =
      (p.paused ^^ decide (Odd (events.count (.keyUp Keymap.pauseCode)))) := by
  induction events generalizing p with
  | nil => simp
  | cons ev events ih =>
    rw [List.foldl_cons, ih, paused_take, List.count_cons]
    by_cases hev : ev = .keyUp Keymap.pauseCode
    · simp only [hev, ↓reduceIte, BEq.rfl, Nat.odd_add_one, decide_not]
      generalize decide (Odd (events.count (.keyUp Keymap.pauseCode))) = odd
      cases p.paused <;> cases odd <;> rfl
    · simp [hev]

end Keypad

/-! ## Keys by their codes -/

namespace Keymap

variable {m : Keymap} {key : Fin 16}

theorem tells?_eq_some_true_iff {ev : HostEvent} :
    m.tells? key ev = some true ↔ ev = .keyDown (m.code key) ∧ m.code key ≠ pauseCode := by
  cases ev with
  | keyDown c => grind [tells?]
  | keyUp c => grind [tells?]
  | close | other => simp [tells?]

theorem tells?_eq_some_false_iff {ev : HostEvent} :
    m.tells? key ev = some false ↔
      ev = .keyUp (m.code key) ∧ m.code key ≠ escapeCode ∧ m.code key ≠ pauseCode := by
  cases ev with
  | keyDown c => grind [tells?]
  | keyUp c => grind [tells?]
  | close | other => simp [tells?]

/-- What is told of a key without a meaning of its own is whether it goes down or comes up. -/
theorem filterMap_tells?_of_plain (hescape : m.code key ≠ escapeCode)
    (hpause : m.code key ≠ pauseCode) (events : List HostEvent) :
    events.filterMap (m.tells? key) =
      (events.filter fun ev => ev = .keyDown (m.code key) ∨ ev = .keyUp (m.code key)).map
        fun ev => decide (ev = .keyDown (m.code key)) := by
  induction events with
  | nil => rfl
  | cons ev events ih =>
    rw [List.filterMap_cons, List.filter_cons, ih]
    cases ev with
    | keyDown c => by_cases hc : c = m.code key <;> simp [tells?, hc, hpause]
    | keyUp c => by_cases hc : c = m.code key <;> simp [tells?, hc, hescape, hpause]
    | close | other => simp [tells?]

end Keymap

namespace Keypad

/-! ## New keypads -/

section New

variable {m : Keymap} {key : Fin 16} (events : List HostEvent)

/-- A key of a new keypad is held iff the last that is told of it is that it goes down. -/
theorem isHeld_new_iff :
    (events.foldl take { keymap := m }).isHeld key = true ↔
      (events.filterMap (m.tells? key)).getLast? = some true := by
  have hfree : ({ keymap := m } : Keypad).isHeld key = false := Vector.getElem_replicate key.isLt
  rw [isHeld_takeAll, hfree]
  cases (events.filterMap (m.tells? key)).getLast? <;> simp

theorem isHeld_new_of_plain (hescape : m.code key ≠ Keymap.escapeCode)
    (hpause : m.code key ≠ Keymap.pauseCode) :
    (events.foldl take { keymap := m }).isHeld key = true ↔
      (events.filter fun ev => ev = .keyDown (m.code key) ∨ ev = .keyUp (m.code key)).getLast? =
        some (.keyDown (m.code key)) := by
  rw [isHeld_new_iff, Keymap.filterMap_tells?_of_plain hescape hpause, List.getLast?_map,
    Option.map_eq_some_iff]
  simp only [decide_eq_true_eq, exists_eq_right]

theorem isHeld_new_of_pause (hpause : m.code key = Keymap.pauseCode) :
    (events.foldl take { keymap := m }).isHeld key = false := by
  rw [Bool.eq_false_iff, Ne, isHeld_new_iff]
  intro hlast
  obtain ⟨ev, -, hev⟩ := List.mem_filterMap.1 (List.mem_of_getLast? hlast)
  exact (Keymap.tells?_eq_some_true_iff.1 hev).2 hpause

theorem isHeld_new_of_escape (hescape : m.code key = Keymap.escapeCode) :
    (events.foldl take { keymap := m }).isHeld key = true ↔
      .keyDown Keymap.escapeCode ∈ events := by
  have hpause : m.code key ≠ Keymap.pauseCode := by
    rw [hescape]
    decide
  -- Nothing is told of the key but that it goes down.
  have hdown : ∀ down ∈ events.filterMap (m.tells? key), down = true := by
    intro down hmem
    obtain ⟨ev, -, hev⟩ := List.mem_filterMap.1 hmem
    cases down with
    | true => rfl
    | false => exact absurd hescape (Keymap.tells?_eq_some_false_iff.1 hev).2.1
  rw [isHeld_new_iff]
  constructor
  · intro hlast
    obtain ⟨ev, hmem, hev⟩ := List.mem_filterMap.1 (List.mem_of_getLast? hlast)
    rwa [(Keymap.tells?_eq_some_true_iff.1 hev).1, hescape] at hmem
  · intro hmem
    have htold : true ∈ events.filterMap (m.tells? key) :=
      List.mem_filterMap.2 ⟨_, hmem, Keymap.tells?_eq_some_true_iff.2 ⟨by rw [hescape], hpause⟩⟩
    cases hlast : (events.filterMap (m.tells? key)).getLast? with
    | none =>
      rw [List.getLast?_eq_none_iff.1 hlast] at htold
      cases htold
    | some down => rw [hdown down (List.mem_of_getLast? hlast)]

theorem paused_new_iff :
    (events.foldl take { keymap := m }).paused = true ↔
      Odd (events.count (.keyUp Keymap.pauseCode)) := by
  simp [paused_takeAll]

end New

/-! ## Polls in order -/

/-- Polls in order, with what each of them tells. -/
def polls (p : Keypad) : List (List HostEvent) → List Bool × Keypad
  | [] => ([], p)
  | events :: later =>
    let (quits, p) := p.pollHost events
    let (rest, p) := p.polls later
    (quits :: rest, p)

theorem polls_eq (p : Keypad) (batches : List (List HostEvent)) :
    p.polls batches =
      (batches.map fun events =>
          decide (.close ∈ events ∨ .keyUp Keymap.escapeCode ∈ events),
        batches.flatten.foldl take p) := by
  induction batches generalizing p with
  | nil => rfl
  | cons events later ih =>
    simp only [polls, pollHost_eq, ih, List.map_cons, List.flatten_cons, List.foldl_append]

/-- An event without a meaning may be left out. -/
theorem foldl_take_filter {p : Keypad} {ev : HostEvent} (h : p.keymap.Ignores ev)
    (events : List HostEvent) : (events.filter (· ≠ ev)).foldl take p = events.foldl take p := by
  induction events generalizing p with
  | nil => rfl
  | cons e events ih =>
    rw [List.filter_cons, List.foldl_cons]
    by_cases he : e = ev
    · have htake : p.take e = p := by
        rw [take, he, Keymap.signal?_of_ignores h]
      rw [htake, ← ih h, if_neg (by simpa using he)]
    · rw [if_pos (by simpa using he), List.foldl_cons, ih]
      rwa [keymap_take]

theorem polls_filter {p : Keypad} {ev : HostEvent} (h : p.keymap.Ignores ev)
    (batches : List (List HostEvent)) :
    p.polls (batches.map (·.filter (· ≠ ev))) = p.polls batches := by
  have hclose : .close ≠ ev := by
    rintro rfl
    exact h
  have hescape : .keyUp Keymap.escapeCode ≠ ev := by
    rintro rfl
    exact h.1 rfl
  rw [polls_eq, polls_eq, ← List.filter_flatten, foldl_take_filter h]
  simp [List.mem_filter, hclose, hescape]

/-- One poll of all events tells whether one of the polls does. -/
theorem pollHost_flatten (p : Keypad) (batches : List (List HostEvent)) :
    p.pollHost batches.flatten = ((p.polls batches).1.any id, (p.polls batches).2) := by
  rw [polls_eq, pollHost_eq, Prod.mk.injEq]
  refine ⟨?_, rfl⟩
  rw [Bool.eq_iff_iff, decide_eq_true_iff, List.any_map, List.any_eq_true]
  simp only [Function.comp_apply, id_eq, decide_eq_true_eq, List.mem_flatten]
  constructor
  · rintro (⟨events, hmem, hclose⟩ | ⟨events, hmem, hescape⟩)
    · exact ⟨events, hmem, .inl hclose⟩
    · exact ⟨events, hmem, .inr hescape⟩
  · rintro ⟨events, hmem, hclose | hescape⟩
    · exact .inl ⟨events, hmem, hclose⟩
    · exact .inr ⟨events, hmem, hescape⟩

/-- **Keyboard.** The polls of a new keypad bring events on the keyboard. Then a key with a code
other than those of Escape and P is held iff the last event with its code is that it goes down; a
key with the code of P is never held, and one with the code of Escape is held from the time on that
Escape goes down. The machine is paused iff P came up an odd number of times. A poll asks to quit
iff the window is closed or Escape comes up in it, and its other events count none the less. Polls
that are split or joined leave the same keypad, and the joined one asks to quit iff a part of it
does. Events without a meaning change nothing. -/
theorem polls_keyboard (m : Keymap) (batches : List (List HostEvent)) :
    let r := polls { keymap := m } batches
    let events := batches.flatten
    (∀ key, m.code key ≠ 27 → m.code key ≠ 112 →
      (r.2.isHeld key = true ↔
        (events.filter fun ev => ev = .keyDown (m.code key) ∨ ev = .keyUp (m.code key)).getLast? =
          some (.keyDown (m.code key)))) ∧
    (∀ key, m.code key = 112 → r.2.isHeld key = false) ∧
    (∀ key, m.code key = 27 → (r.2.isHeld key = true ↔ .keyDown 27 ∈ events)) ∧
    (r.2.paused = true ↔ Odd (events.count (.keyUp 112))) ∧
    r.1 = batches.map (fun events => decide (.close ∈ events ∨ .keyUp 27 ∈ events)) ∧
    (∀ batches', batches'.flatten = events → (polls { keymap := m } batches').2 = r.2) ∧
    pollHost { keymap := m } events = (r.1.any id, r.2) ∧
    ∀ ev, m.Ignores ev →
      (polls { keymap := m } (batches.map (·.filter (· ≠ ev)))) = r := by
  intro r events
  have hr : r = (batches.map fun events => decide (.close ∈ events ∨ .keyUp 27 ∈ events),
      events.foldl take { keymap := m }) := polls_eq _ batches
  have hkeypad : r.2 = events.foldl take { keymap := m } := by rw [hr]
  refine ⟨?_, ?_, ?_, ?_, congrArg Prod.fst hr, ?_, pollHost_flatten _ batches, ?_⟩
  · intro key hescape hpause
    rw [hkeypad]
    exact isHeld_new_of_plain events hescape hpause
  · intro key hpause
    rw [hkeypad]
    exact isHeld_new_of_pause events hpause
  · intro key hescape
    rw [hkeypad]
    exact isHeld_new_of_escape events hescape
  · rw [hkeypad]
    exact paused_new_iff events
  · intro batches' h
    rw [hkeypad, polls_eq, h]
  · intro ev h
    exact polls_filter (p := { keymap := m }) h batches

/-- A key map that has the codes of Escape and P, and polls in which both of them act. -/
theorem polls_keyboard_reserved :
    let m : Keymap :=
      { codes := [27, 112, 50, 51, 113, 119, 101, 97, 115, 100, 122, 99, 52, 114, 102, 118]
        length_codes := by decide
        nodup_codes := by decide }
    let batches : List (List HostEvent) :=
      [[.keyDown 27, .keyDown 112, .keyUp 112, .keyDown 50], [.keyUp 27, .keyUp 50, .keyDown 50],
        [.other, .keyDown 1000]]
    let r := polls { keymap := m } batches
    m.code 0 = 27 ∧ m.code 1 = 112 ∧ m.code 2 ≠ 27 ∧ m.code 2 ≠ 112 ∧ m.Ignores (.keyDown 1000) ∧
      r.2.isHeld 0 = true ∧ r.2.isHeld 1 = false ∧ r.2.isHeld 2 = true ∧ r.2.paused = true ∧
      r.1 = [false, true, false] ∧ polls { keymap := m } [batches.flatten] = ([true], r.2) ∧
      polls { keymap := m } (batches.map (·.filter (· ≠ .keyDown 1000))) = r := by
  intro m batches r
  obtain ⟨hplain, hpause, hescape, hpaused, hquits, -, hjoined, hignored⟩ :=
    polls_keyboard m batches
  have hcodes : m.code 0 = 27 ∧ m.code 1 = 112 ∧ m.code 2 = 50 := by decide
  obtain ⟨hcode₀, hcode₁, hcode₂⟩ := hcodes
  have hne : m.code 2 ≠ 27 ∧ m.code 2 ≠ 112 := by
    rw [hcode₂]
    decide
  have hmeaningless : m.Ignores (.keyDown 1000) := .inr (by decide)
  refine ⟨hcode₀, hcode₁, hne.1, hne.2, hmeaningless, ?_, hpause 1 hcode₁, ?_, ?_, hquits, ?_,
    hignored _ hmeaningless⟩
  · exact (hescape 0 hcode₀).2 (by decide)
  · refine (hplain 2 hne.1 hne.2).2 ?_
    rw [hcode₂]
    decide
  · exact hpaused.2 (by decide)
  · rw [polls, hjoined]
    rfl

end Keypad

end Chip8
