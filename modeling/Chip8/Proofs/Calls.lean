import Chip8.Proofs.Loading
import Chip8.Proofs.Operation

/-!
# Calls and returns

Only calls and returns touch the stack, at its top. So a return address stays what it is for as long
as the stack does not get below it, whatever programs do to their own instructions and whatever
happens in between, and the return that takes it off goes behind the call that put it on.

* `Instr.exec_stacked`: what an instruction does to the live return addresses.
* `Emulator.step_stacked`: what an operation does to them.
* `Emulator.run_keeps`: the addresses above which the stack stays in a run are kept.
* `Emulator.run_deeper`: a stack that is never as deep as before stays deeper.
* `Emulator.cycle_returns`: the cycle that takes an address off goes there.
* `Emulator.run_calls_return`: a return goes behind its call.
-/

namespace Chip8

/-! ## Instructions -/

/-- What an instruction that goes through does to the live return addresses: a call puts the
instruction pointer on top of them, a return takes the newest off and goes there, and every other
instruction leaves them alone. -/
inductive Instr.Stacked (i : Instr) (m m' : Machine) : Prop where
  | called (hk : i.kind = .call) (h : m'.stack.live = m.stack.live ++ [UInt16.ofInt m.ip])
  | returned (hk : i.kind = .ret) (back : UInt16) (h : m.stack.live = m'.stack.live ++ [back])
    (hip : m'.ip = back.toNat)
  | kept (hk : i.kind ≠ .call) (h : m'.stack = m.stack)

namespace Machine

theorem stack_setRegs (m : Machine) (bs : List UInt8) : (m.setRegs bs).stack = m.stack := by
  rw [setRegs]

theorem stack_skipIf (m : Machine) (condition : Bool) : (m.skipIf condition).stack = m.stack := by
  cases condition <;> rfl

theorem stack_waitKey (m : Machine) (x : Fin 16) (key : Option (Fin 16)) :
    (m.waitKey x key).stack = m.stack := by
  cases key <;> rfl

end Machine

theorem Instr.exec_stacked {i : Instr} {m m' : Machine} {h h' : Host} (hm : m.WellFormed)
    (hexec : i.exec m h = .ok (m', h')) : i.Stacked m m' := by
  have hmem := hm.memory_size
  obtain ⟨kind, x, y, n, kk, nnn⟩ := i
  cases kind with
  | call =>
    simp only [exec, Machine.call] at hexec
    cases hpush : m.stack.push m.ip with
    | error f =>
      rw [hpush] at hexec
      cases hexec
    | ok s =>
      rw [hpush] at hexec
      cases hexec
      exact .called rfl (CallStack.live_of_push hpush)
  | ret =>
    simp only [exec, Machine.ret] at hexec
    cases hpop : m.stack.pop with
    | error f =>
      rw [hpop] at hexec
      cases hexec
    | ok r =>
      rw [hpop] at hexec
      cases hexec
      exact .returned rfl r.1 (CallStack.live_of_pop hpop) rfl
  | skipEqByte | skipNeByte | skipEqReg | skipNeReg | skipKeyHeld | skipKeyFree =>
    cases hexec
    exact .kept (by simp) (m.stack_skipIf _)
  | waitKey =>
    cases hexec
    exact .kept (by simp) (m.stack_waitKey _ _)
  | draw =>
    simp only [exec, Machine.draw_eq hmem hm.hasPixels] at hexec
    cases hexec
    exact .kept (by simp) rfl
  | readDelay =>
    simp only [exec, Machine.readDelay_eq hm.delay_bounds] at hexec
    cases hexec
    exact .kept (by simp) rfl
  | storeDecimal | storeRegs =>
    simp only [exec, Machine.storeBytes_eq hmem] at hexec
    cases hexec
    exact .kept (by simp) rfl
  | loadRegs =>
    simp only [exec, Machine.bytesAt_eq hmem] at hexec
    cases hexec
    exact .kept (by simp) (m.stack_setRegs _)
  | _ =>
    cases hexec
    exact .kept (by simp) rfl

/-! ## Operations -/

namespace Emulator

/-- What an operation does to the live return addresses. Only the cycles of calls and returns touch
them. -/
inductive Stacked (e : Emulator) (op : Operation) : Prop where
  | called (hop : op = .cycle) (hk : Kind.call.Matches e.word)
    (h : (e.step op).2.machine.stack.live =
      e.machine.stack.live ++ [UInt16.ofInt e.machine.advance.ip])
  | returned (hop : op = .cycle) (hok : e.cycle.1 = .ok ()) (hr : e.mode = .running)
    (hk : Kind.ret.Matches e.word) (back : UInt16)
    (h : e.machine.stack.live = (e.step op).2.machine.stack.live ++ [back])
    (hip : (e.step op).2.machine.ip = back.toNat)
  | kept (h : (e.step op).2.machine.stack = e.machine.stack)

variable {e : Emulator}

theorem cycle_stacked (he : e.WellFormed) : e.Stacked .cycle := by
  cases hr : e.mode with
  | idle =>
    refine .kept ?_
    rw [step, cycle_idle hr, machine_trace]
  | running =>
    have hc := cycle_cycled he hr
    have hstep : (e.step .cycle).2 = e.cycle.2 := rfl
    generalize hres : e.cycle = r at hc
    cases hc with
    | undecoded =>
      refine .kept ?_
      rw [hstep, hres]
      rfl
    | overflow i | underflow i =>
      refine .kept ?_
      rw [hstep, hres, machine_trace]
      rfl
    | done i hi m hcall hret hexec hm' =>
      have hmatch := Instr.matches_of_ofWord? e.word_lt hi
      have hmachine : (e.step .cycle).2.machine = m := by rw [hstep, hres]
      cases Instr.exec_stacked he.machine.advance hexec with
      | called hk h =>
        refine .called rfl (hk ▸ hmatch) ?_
        rw [hmachine]
        exact h
      | returned hk back h hip =>
        refine .returned rfl (by rw [hres]) hr (hk ▸ hmatch) back ?_ ?_
        · rw [hmachine]
          exact h
        · rw [hmachine]
          exact hip
      | kept hk h =>
        refine .kept ?_
        rw [hmachine]
        exact h

theorem step_stacked (he : e.WellFormed) {op : Operation} (hop : ¬ op.Replaces) :
    e.Stacked op := by
  cases op with
  | cycle => exact cycle_stacked he
  | load | boot => exact absurd trivial hop
  | tick | idle | resume | hold | refresh => exact .kept rfl

/-! ## Runs -/

/-- Addresses that the stack does not get below are kept. -/
theorem Stacked.keeps {op : Operation} (hs : e.Stacked op) {kept : List UInt16}
    (h : kept <+: e.machine.stack.live)
    (hdepth : kept.length ≤ (e.step op).2.machine.stack.depth) :
    kept <+: (e.step op).2.machine.stack.live := by
  cases hs with
  | called hop hk hlive =>
    rw [hlive]
    exact h.trans (List.prefix_append _ _)
  | returned hop hok hr hk back hlive hip =>
    rw [hlive] at h
    refine List.prefix_of_prefix_length_le h (List.prefix_append _ _) ?_
    rwa [CallStack.length_live]
  | kept hsame => rwa [hsame]

theorem run_keeps (he : e.WellFormed) {ops : List Operation}
    (hops : ∀ op ∈ ops, ¬ op.Replaces) {kept : List UInt16} (h : kept <+: e.machine.stack.live)
    (hdepth : e.Throughout (fun d => kept.length ≤ d.machine.stack.depth) ops) :
    kept <+: (e.run ops).2.machine.stack.live := by
  induction ops generalizing e with
  | nil => exact h
  | cons op ops ih =>
    -- A call adds behind the prefix, and a return that took from it would leave too few addresses.
    rw [List.forall_mem_cons] at hops
    rw [throughout_cons] at hdepth
    have hnext := (step_stacked he hops.1).keeps h hdepth.2.head
    exact ih (step_wellFormed he op) hops.2 hnext hdepth.2

/-- An operation takes no more than one address off. -/
theorem Stacked.depth_le {op : Operation} (hs : e.Stacked op) :
    e.machine.stack.depth ≤ (e.step op).2.machine.stack.depth + 1 := by
  cases hs with
  | called hop hk hlive =>
    have hdepth := CallStack.depth_of_live hlive
    omega
  | returned hop hok hr hk back hlive hip => exact Nat.le_of_eq (CallStack.depth_of_live hlive)
  | kept hsame =>
    rw [hsame]
    exact Nat.le_succ _

/-- A stack that is deeper at first stays deeper until it is just as deep. -/
theorem run_deeper (he : e.WellFormed) {ops : List Operation}
    (hops : ∀ op ∈ ops, ¬ op.Replaces) {depth : Nat} (h : depth < e.machine.stack.depth)
    (hne : e.Throughout (fun d => d.machine.stack.depth ≠ depth) ops) :
    e.Throughout (fun d => depth < d.machine.stack.depth) ops := by
  induction ops generalizing e with
  | nil => exact throughout_nil.2 h
  | cons op ops ih =>
    rw [List.forall_mem_cons] at hops
    rw [throughout_cons] at hne ⊢
    have hstep := (step_stacked he hops.1).depth_le
    have hnext := hne.2.head
    exact ⟨h, ih (step_wellFormed he op) hops.2 (by omega) hne.2⟩

/-- A call that goes through puts the address behind it on the stack. -/
theorem live_call (he : e.WellFormed) (hr : e.mode = .running)
    (hk : Kind.call.Matches e.word) (hok : e.cycle.1 = .ok ()) :
    e.cycle.2.machine.stack.live =
      e.machine.stack.live ++ [UInt16.ofInt e.machine.advance.ip] := by
  have hc := cycle_cycled he hr
  generalize e.cycle = r at hc hok ⊢
  cases hc with
  | undecoded | overflow | underflow => cases hok
  | done i hi m hcall hret hexec hm' =>
    have hkind : i.kind = .call := (Instr.matches_of_ofWord? e.word_lt hi).unique hk
    cases Instr.exec_stacked he.machine.advance hexec with
    | called _ h => exact h
    | returned hret =>
      rw [hkind] at hret
      cases hret
    | kept hne => exact absurd hkind hne

/-- The cycle that takes an address off the ones below it is a return that goes there. -/
theorem cycle_returns (he : e.WellFormed) {below : List UInt16} {a : UInt16}
    (h : below ++ [a] <+: e.machine.stack.live)
    (hback : e.cycle.2.machine.stack.depth = below.length) :
    e.mode = .running ∧ Kind.ret.Matches e.word ∧ e.cycle.1 = .ok () ∧
      e.cycle.2.machine.ip = a.toNat := by
  have hdeep := h.length_le
  rw [List.length_append, List.length_singleton, CallStack.length_live] at hdeep
  have hstep : (e.step .cycle).2 = e.cycle.2 := rfl
  cases cycle_stacked he with
  | called _ _ hlive =>
    rw [hstep] at hlive
    have hdepth := CallStack.depth_of_live hlive
    omega
  | kept hsame =>
    rw [hstep] at hsame
    rw [hsame] at hback
    omega
  | returned _ hok hr hk back hlive hip =>
    rw [hstep] at hlive hip
    have hdepth := CallStack.depth_of_live hlive
    have hsame : below ++ [a] = e.machine.stack.live := by
      refine h.eq_of_length ?_
      rw [List.length_append, CallStack.length_live, hdepth, hback, List.length_singleton]
    rw [hlive] at hsame
    obtain ⟨-, hlast⟩ := List.append_inj' hsame rfl
    rw [List.singleton_inj] at hlast
    exact ⟨hr, hk, hok, hlast ▸ hip⟩

/-- The slot of an address that is pushed after an advance holds the address of the next word. -/
theorem toNat_ofInt_advance (m : Machine) :
    ((UInt16.ofInt m.advance.ip).toNat : Int) = (m.ip + 2) % 0x10000 := by
  have hword : m.advance.ip = (m.ip + 2) % 0x10000 := rfl
  rw [hword, UInt16.ofInt, UInt16.toNat_ofNat']
  omega

/-- **Calls and returns.** In any run in which the machine is not replaced, the addresses that are
live at first stay the oldest ones for as long as no fewer are live. So after a call, the first
cycle that makes the stack as deep as before is a return, and it goes behind the call. -/
theorem run_calls_return (he : e.WellFormed) {ops : List Operation}
    (hops : ∀ op ∈ ops, ¬ op.Replaces) :
    (e.Throughout (fun d => e.machine.stack.depth ≤ d.machine.stack.depth) ops →
      (e.run ops).2.machine.stack.live.take e.machine.stack.depth = e.machine.stack.live) ∧
    (e.mode = .running → Kind.call.Matches e.word → e.cycle.1 = .ok () →
      e.cycle.2.Throughout (fun d => d.machine.stack.depth ≠ e.machine.stack.depth) ops →
      let f := (e.cycle.2.run ops).2
      f.cycle.2.machine.stack.depth = e.machine.stack.depth →
        f.mode = .running ∧ Kind.ret.Matches f.word ∧ f.cycle.1 = .ok () ∧
          f.cycle.2.machine.ip = (e.machine.ip + 2) % 0x10000) := by
  constructor
  · intro hdepth
    have hkept := run_keeps he hops (List.prefix_refl e.machine.stack.live) (by simpa using hdepth)
    rw [List.prefix_iff_eq_take, CallStack.length_live] at hkept
    exact hkept.symm
  · intro hr hk hok hne f hback
    have hlive := live_call he hr hk hok
    have hcalledWell := cycle_wellFormed he
    have hcalled := CallStack.depth_of_live hlive
    have hdepth := run_deeper hcalledWell hops (by omega : e.machine.stack.depth < _) hne
    have hkept : e.machine.stack.live ++ [UInt16.ofInt e.machine.advance.ip] <+:
        f.machine.stack.live := by
      refine run_keeps hcalledWell hops (hlive ▸ List.prefix_refl _) ?_
      simpa [Nat.succ_le_iff] using hdepth
    obtain ⟨hr', hk', hok', hip⟩ :=
      cycle_returns (hcalledWell.run ops) hkept (by rw [hback, CallStack.length_live])
    refine ⟨hr', hk', hok', ?_⟩
    rw [hip, toNat_ofInt_advance]

/-- A call within a call, with a tick before the return. -/
theorem run_calls_return_nested :
    let program : List UInt8 := [0x22, 0x06, 0, 0, 0, 0, 0x22, 0x0A, 0, 0, 0x00, 0xEE]
    let e := (({ machine := .fresh program, host := .still } : Emulator).run [.cycle]).2
    e.WellFormed ∧ e.machine.stack.depth = 1 ∧
      (e.run [.cycle, .tick, .cycle]).2.machine.stack.live.take 1 = e.machine.stack.live ∧
      (e.cycle.2.run [.tick]).2.cycle.2.machine.ip = 0x208 := by
  intro program e
  have he : e.WellFormed :=
    WellFormed.run ⟨Machine.wellFormed_fresh (by decide), rfl⟩ _
  obtain ⟨hdepth, hr, hip, hword, hok, hcall, hret⟩ : e.machine.stack.depth = 1 ∧
      e.mode = .running ∧ e.machine.ip = 0x206 ∧ e.word = 0x220A ∧ e.cycle.1.isOk = true ∧
      e.cycle.2.machine.stack.depth = 2 ∧
      (e.cycle.2.run [.tick]).2.cycle.2.machine.stack.depth = 1 := by decide +kernel
  have hok : e.cycle.1 = .ok () := by
    cases hc : e.cycle.1 with
    | error f =>
      rw [hc] at hok
      cases hok
    | ok => rfl
  have hcallword : Kind.call.Matches e.word := by
    rw [hword]
    rfl
  -- Equations for any emulator: on this one, unification would run the program.
  have hcycle : ∀ d : Emulator, (d.step .cycle).2 = d.cycle.2 := fun _ => rfl
  have htick : ∀ d : Emulator, (d.step .tick).2 = (d.run [.tick]).2 := fun _ => rfl
  have hstack : ∀ d : Emulator, (d.run [.tick]).2.machine.stack = d.machine.stack := fun _ => rfl
  have hops : ∀ op ∈ [Operation.cycle, .tick, .cycle], ¬ op.Replaces := by
    simp [Operation.Replaces]
  have hops' : ∀ op ∈ [Operation.tick], ¬ op.Replaces := by simp [Operation.Replaces]
  obtain ⟨hkept, -⟩ := run_calls_return he hops
  obtain ⟨-, hback⟩ := run_calls_return he hops'
  rw [hdepth] at hkept hback
  refine ⟨he, hdepth, hkept ?_, ?_⟩
  · simp only [throughout_cons, throughout_nil, hcycle, htick, hstack]
    omega
  · have hdeep : e.cycle.2.Throughout (fun d => d.machine.stack.depth ≠ 1) [.tick] := by
      simp only [throughout_cons, throughout_nil, htick, hstack]
      omega
    obtain ⟨-, -, -, hto⟩ := hback hr hcallword hok hdeep hret
    rw [hto, hip]
    rfl

end Emulator

end Chip8
