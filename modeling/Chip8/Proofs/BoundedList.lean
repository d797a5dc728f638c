import Chip8.Proofs.CallStack

/-!
# Call stacks as bounded lists

A call stack answers like a list of addresses that has room for so many of them: what is pushed
goes to its end, and what is popped comes from there. Slots behind the live ones keep old values,
which no answer shows.

* `CallStack.Use`, `CallStack.use`: a call on a stack, with its answer.
* `CallStack.Use.onList`: the same call on a bounded list.
* `CallStack.Holds`, `CallStack.Holds.use`: a stack that holds a list, before a call and behind it.
* `CallStack.answers`, `CallStack.answers_related`: calls in order, on anything that takes them.
* `CallStack.answers_bounded_list`: a new stack answers any calls like an empty list.
-/

namespace Chip8.CallStack

/-- A call on a stack of addresses. -/
inductive Use where
  /-- Make an address the newest one. -/
  | push (address : Int)
  /-- Take the newest address off. -/
  | pop

/-- What a call answers: a pop the address that it takes off, a push nothing. -/
abbrev Answer := Except Error (Option Int)

/-! ## Stacks and lists -/

/-- The live addresses as numbers, oldest first. -/
def addresses (s : CallStack) : List Int := s.live.map fun a => (a.toNat : Int)

/-- The answer to a call, and the stack behind it. A call that is refused leaves the stack as it
is. -/
def use (s : CallStack) : Use → Answer × CallStack
  | .push address =>
    match s.push address with
    | .ok t => (.ok none, t)
    | .error e => (.error e, s)
  | .pop =>
    match s.pop with
    | .ok (a, t) => (.ok (some a.toNat), t)
    | .error e => (.error e, s)

/-- The answer to a call, and the list behind it, of a list that has room for so many addresses and
keeps them to 16 bits. -/
def Use.onList (capacity : Nat) (xs : List Int) : Use → Answer × List Int
  | .push address =>
    if xs.length < capacity then (.ok none, xs ++ [address % 65536]) else (.error .overflow, xs)
  | .pop =>
    match xs.getLast? with
    | some a => (.ok (some a), xs.dropLast)
    | none => (.error .underflow, xs)

/-- A stack with so many slots holds a list of addresses. -/
structure Holds (s : CallStack) (capacity : Nat) (xs : List Int) : Prop where
  /-- There is a slot for each address that the list has room for. -/
  capacity_eq : s.capacity = capacity
  /-- The live addresses are those of the list. -/
  addresses_eq : s.addresses = xs

theorem holds_empty (capacity : Nat) : (empty capacity).Holds capacity [] := by
  refine ⟨rfl, ?_⟩
  rw [addresses, live_empty]
  rfl

/-- An address that is kept to 16 bits. -/
theorem toNat_ofInt (a : Int) : ((UInt16.ofInt a).toNat : Int) = a % 65536 := by
  rw [UInt16.ofInt, UInt16.toNat_ofNat']
  omega

variable {s : CallStack} {capacity : Nat} {xs : List Int}

theorem Holds.depth_eq (h : s.Holds capacity xs) : s.depth = xs.length := by
  rw [← h.addresses_eq, addresses, List.length_map, length_live]

theorem Holds.size_slots_eq (h : s.Holds capacity xs) : s.slots.size = capacity := by
  rw [s.size_slots, h.capacity_eq, Int.toNat_natCast]

/-- A call on a stack and on the list that it holds has one answer, and the stack holds the list
behind it. -/
theorem Holds.use (h : s.Holds capacity xs) (u : Use) :
    (s.use u).1 = (u.onList capacity xs).1 ∧
      (s.use u).2.Holds capacity (u.onList capacity xs).2 := by
  have hdepth := h.depth_eq
  cases u with
  | push address =>
    by_cases hroom : xs.length < capacity
    · obtain ⟨t, ht, hcapacity, -⟩ :=
        push_of_lt (s := s) (by rw [h.capacity_eq, hdepth]; omega) address
      have hend : t.addresses = xs ++ [address % 65536] := by
        rw [addresses, live_of_push ht, List.map_append, ← h.addresses_eq, addresses,
          List.map_singleton, toNat_ofInt]
      simp only [CallStack.use, ht, Use.onList, if_pos hroom, true_and]
      exact ⟨hcapacity.trans h.capacity_eq, hend⟩
    · have hfull := push_of_full (s := s) (by rw [h.capacity_eq, hdepth]; omega) address
      simp only [CallStack.use, hfull, Use.onList, if_neg hroom, true_and]
      exact h
  | pop =>
    by_cases hlive : 0 < s.depth
    · obtain ⟨a, t, ht, hcapacity, -⟩ := pop_of_pos hlive
      have hend : xs = t.addresses ++ [(a.toNat : Int)] := by
        rw [← h.addresses_eq, addresses, live_of_pop ht, List.map_append, addresses,
          List.map_singleton]
      simp only [CallStack.use, ht, Use.onList, hend, List.getLast?_concat, List.dropLast_concat,
        true_and]
      exact ⟨hcapacity.trans h.capacity_eq, rfl⟩
    · have hnone : xs = [] := List.length_eq_zero_iff.1 (by omega)
      simp only [CallStack.use, pop_of_empty (Nat.eq_zero_of_not_pos hlive), Use.onList, hnone,
        List.getLast?_nil, true_and]
      exact hnone ▸ h

/-- A call that is refused changes neither the depth nor any slot. -/
theorem use_error {u : Use} {e : Error} (h : (s.use u).1 = .error e) : (s.use u).2 = s := by
  cases u with
  | push | pop =>
    simp only [CallStack.use] at h ⊢
    split at h
    · cases h
    · rfl

/-! ## Calls in order -/

/-- The answers to calls in order, and what is behind them, for anything that takes calls. -/
def answers {σ : Type} (step : σ → Use → Answer × σ) (s : σ) : List Use → List Answer × σ
  | [] => ([], s)
  | u :: us => ((step s u).1 :: (answers step (step s u).2 us).1, (answers step (step s u).2 us).2)

/-- What answers each call alike, and stays related by that, answers all calls alike. -/
theorem answers_related {σ τ : Type} {step : σ → Use → Answer × σ} {step' : τ → Use → Answer × τ}
    (related : σ → τ → Prop)
    (hstep : ∀ s t u, related s t →
      (step s u).1 = (step' t u).1 ∧ related (step s u).2 (step' t u).2)
    {s : σ} {t : τ} (h : related s t) (us : List Use) :
    (answers step s us).1 = (answers step' t us).1 ∧
      related (answers step s us).2 (answers step' t us).2 := by
  induction us generalizing s t with
  | nil => exact ⟨rfl, h⟩
  | cons u us ih =>
    obtain ⟨hanswer, hrelated⟩ := hstep s t u h
    obtain ⟨hanswers, hlast⟩ := ih hrelated
    refine ⟨?_, hlast⟩
    rw [answers, answers, hanswer, hanswers]

/-- **Bounded lists.** A new stack answers any calls like a list that is empty at first and has room
for as many addresses. Behind them the live addresses are those of the list, the depth is its
length, and there are as many slots as at first. A call that is refused changes neither the depth
nor any slot. -/
theorem answers_bounded_list (capacity : Nat) (calls : List Use) :
    let stack := answers use (empty capacity) calls
    let list := answers (Use.onList capacity) [] calls
    stack.1 = list.1 ∧ stack.2.addresses = list.2 ∧ stack.2.depth = list.2.length ∧
      stack.2.slots.size = capacity ∧
      ∀ u e, (stack.2.use u).1 = .error e →
        (stack.2.use u).2.depth = stack.2.depth ∧ (stack.2.use u).2.slots = stack.2.slots := by
  intro stack list
  obtain ⟨hanswers, hlast⟩ :=
    answers_related (Holds · capacity) (fun _ _ u h => h.use u) (holds_empty capacity) calls
  refine ⟨hanswers, hlast.addresses_eq, hlast.depth_eq, hlast.size_slots_eq, fun u e hu => ?_⟩
  rw [use_error hu]
  exact ⟨rfl, rfl⟩

end Chip8.CallStack
