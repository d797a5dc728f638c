import Chip8.Proofs.Footprint
import Chip8.Proofs.Operation

/-!
# Held instructions

An instruction that has been read can be held and executed at any later time, also when another
machine has taken the place of the one for which it was decoded. Machines are told apart by how many
came before them, which never changes; so an instruction always finds the machine that it is bound
to, and no other.

* `Handling`, `Emulator.handle`, `Emulator.handleAll`: operations and the parts of a cycle one at a
  time, held instructions among them.
* `Emulator.Handled`, `Emulator.handle_handled`: what a handling does to the machines.
* `Emulator.handleAll_sound`: all machines from a number on stay well-formed, and the decoder bound
  to the present one.
* `Emulator.former_handleAll`: a former machine is changed by the instructions bound to it only.
* `Emulator.ActsBack`: what executing an instruction does that is bound to a former machine.
* `Emulator.execute_outlived`: that is what a held instruction does once its machine is replaced.
-/

namespace Chip8

/-- What can happen to an emulator when a cycle is taken apart. An instruction that is executed may
be any that was decoded, however long ago. -/
inductive Handling where
  /-- An operation. -/
  | operation (op : Operation)
  /-- The next word is fetched. -/
  | fetch
  /-- The word fetched last is decoded. -/
  | decode
  /-- An instruction that is held is executed. -/
  | execute (held : Held)
  /-- Tracing is switched on or off. -/
  | trace (live : Bool)
  /-- The host changes in any way. -/
  | host (host : Host)

namespace Emulator

/-- One handling. -/
def handle (e : Emulator) : Handling → Except Failure Unit × Emulator
  | .operation op => e.step op
  | .fetch => (e.fetch.1.mapError .fault, e.fetch.2)
  | .decode => ((e.decode.1.mapError Failure.fault).map fun _ => (), e.decode.2)
  | .execute held => ((e.execute held).1.mapError .fault, (e.execute held).2)
  | .trace live => (.ok (), { e with live })
  | .host host => (.ok (), { e with host })

/-- The emulator after handlings in order. One that fails stops none of those behind it. -/
def handleAll (e : Emulator) : List Handling → Emulator
  | [] => e
  | a :: as => (e.handle a).2.handleAll as

theorem handleAll_append (e : Emulator) (as bs : List Handling) :
    e.handleAll (as ++ bs) = (e.handleAll as).handleAll bs := by
  induction as generalizing e with
  | nil => rfl
  | cons a as ih => exact ih _

variable {e e' : Emulator} {k : Nat} {held : Held} {old : Machine}

theorem machineAt_congr (h : e'.former[k]? = e.former[k]?) (hk : k < e.former.size) :
    e'.machineAt k = e.machineAt k :=
  machineAt_of_getElem? (h.trans (getElem?_former hk))

/-! ## What a handling does to the machines -/

/-- What a handling can do to the machines of an emulator. -/
inductive Handled (e : Emulator) (a : Handling) (e' : Emulator) : Prop where
  /-- The present machine moves on at most. -/
  | present (hformer : e'.former = e.former) (he : e'.WellFormed)
  /-- Another machine takes the place of the present one. -/
  | replaced (hformer : e'.former = e.former.push e.machine) (he : e'.WellFormed)
  /-- The former machine that an executed instruction is bound to moves on. -/
  | past (held : Held) (m : Machine) (ha : a = .execute held)
      (hformer : e'.former = e.former.setIfInBounds held.owner m)
      (hmachine : e'.machine = e.machine) (hdecoder : e'.decoder = e.decoder)
      (hm : (e.machineAt held.owner).WellFormed → m.WellFormed)

theorem former_cycle (he : e.WellFormed) : e.cycle.2.former = e.former := by
  cases hr : e.mode with
  | idle => rw [cycle_idle hr, former_trace]
  | running =>
    have hc := cycle_cycled he hr
    generalize e.cycle = r at hc ⊢
    cases hc with
    | undecoded => rfl
    | overflow i | underflow i => exact former_trace e.advance i
    | done i => exact former_trace e.advance i

theorem fetch_wellFormed (he : e.WellFormed) : e.fetch.2.WellFormed := by
  cases hr : e.mode with
  | idle => simpa only [fetch, hr] using he
  | running =>
    have hword : 0 ≤ (e.word : Int) ∧ (e.word : Int) < 0x10000 := by
      have := e.word_lt
      omega
    rw [fetch_running he.machine.memory_size hr]
    exact ⟨he.machine.setOpcode hword, he.decoder⟩

theorem decode_wellFormed (he : e.WellFormed) : e.decode.2.WellFormed := by
  cases hr : e.mode with
  | idle => simpa only [decode, hr] using he
  | running =>
    rw [decode_running he.decoder hr, Machine.decode]
    cases Instr.ofWord? e.machine.opcode <;>
      exact ⟨he.machine.setIp (Machine.word_bounds _), he.decoder⟩

/-- An instruction bound to a former machine is traced and carried out on that machine. -/
theorem execute_former (h : e.former[held.owner]? = some old) :
    e.execute held =
      match held.instr.exec old e.host with
      | .error f => (.error f, e.trace held.instr)
      | .ok (m, host) =>
        (.ok (), { e.trace held.instr with
          former := e.former.setIfInBounds held.owner m, host }) := by
  have hlt : held.owner < e.former.size := (Array.getElem?_eq_some_iff.1 h).1
  have hlt' : held.owner < (e.trace held.instr).former.size := by rwa [former_trace]
  have hold : (e.trace held.instr).machineAt held.owner = old := by
    refine machineAt_of_getElem? ?_
    rwa [former_trace]
  cases hexec : held.instr.exec old e.host <;>
    simp only [execute, perform, hold, host_trace, setMachineAt_of_lt hlt', former_trace, hexec]

theorem execute_handled (he : e.WellFormed) (held : Held) :
    e.Handled (.execute held) (e.execute held).2 := by
  have htraced := he.trace held.instr
  cases hold : e.former[held.owner]? with
  | none =>
    have hle : (e.trace held.instr).former.size ≤ held.owner := by
      rw [former_trace]
      exact Array.getElem?_eq_none_iff.1 hold
    have hx := Instr.exec_executed (i := held.instr) he.machine e.host
    rw [execute, perform, machineAt_of_le hle, machine_trace, host_trace]
    generalize held.instr.exec e.machine e.host = r at hx ⊢
    cases hx with
    | overflow | underflow => exact .present (former_trace ..) htraced
    | done m' _ _ hm' =>
      simp only [setMachineAt_of_le hle]
      exact .present (former_trace ..) ⟨hm', htraced.decoder⟩
  | some old =>
    rw [execute_former hold]
    cases hexec : held.instr.exec old e.host with
    | error f => exact .present (former_trace ..) htraced
    | ok r =>
      refine .past held r.1 rfl rfl (machine_trace ..) (decoder_trace ..) fun hold' => ?_
      rw [machineAt_of_getElem? hold] at hold'
      have hx := Instr.exec_executed (i := held.instr) hold' e.host
      rw [hexec] at hx
      cases hx with
      | done m' _ _ hm' => exact hm'

theorem step_handled (he : e.WellFormed) (op : Operation) :
    e.Handled (.operation op) (e.step op).2 := by
  have hnext := step_wellFormed he op
  cases op with
  | load program =>
    by_cases hfits : program.length ≤ 3584
    · rw [step, load_ok he.machine hfits] at hnext ⊢
      exact .replaced rfl hnext
    · rw [step, load_refused he.machine (Nat.lt_of_not_le hfits)]
      exact .present rfl he
  | boot => exact .replaced rfl hnext
  | cycle => exact .present (former_cycle he) hnext
  | tick | idle | resume | hold | refresh => exact .present rfl hnext

theorem handle_handled (he : e.WellFormed) (a : Handling) : e.Handled a (e.handle a).2 := by
  cases a with
  | operation op => exact step_handled he op
  | fetch =>
    refine .present ?_ (fetch_wellFormed he)
    cases hr : e.mode with
    | idle => simp only [handle, fetch, hr]
    | running => rw [handle, fetch_running he.machine.memory_size hr]
  | decode => exact .present he.bindsPresent.former (decode_wellFormed he)
  | execute held => exact execute_handled he held
  | trace | host => exact .present rfl ⟨he.machine, he.decoder⟩

/-! ## What handlings keep -/

/-- The machines from a number on are well-formed, and the decoder reads for the present one. -/
structure SoundFrom (e : Emulator) (k : Nat) : Prop where
  machine : ∀ j, k ≤ j → (e.machineAt j).WellFormed
  decoder : e.decoder.owner = e.former.size

theorem SoundFrom.wellFormed (h : e.SoundFrom k) : e.WellFormed where
  machine := by
    rw [← machineAt_of_le (Nat.le_max_right k e.former.size)]
    exact h.machine _ (Nat.le_max_left ..)
  decoder := h.decoder

theorem soundFrom_present (he : e.WellFormed) : e.SoundFrom e.former.size where
  machine j hj := by
    rw [machineAt_of_le hj]
    exact he.machine
  decoder := he.decoder

/-- A machine that is replaced keeps its number, and so do those before it. -/
theorem machineAt_of_push (h : e'.former = e.former.push e.machine) (hk : k ≤ e.former.size) :
    e'.machineAt k = e.machineAt k := by
  rw [machineAt, h, Array.getElem?_push]
  split
  · rename_i heq
    rw [machineAt_of_le (Nat.le_of_eq heq.symm), Option.getD_some]
  · rename_i hne
    rw [getElem?_former (by omega), Option.getD_some]

namespace Handled

variable {a : Handling}

theorem size_le (h : e.Handled a e') : e.former.size ≤ e'.former.size := by
  cases h with
  | present hformer | replaced hformer | past _ _ _ hformer => simp [hformer]

theorem wellFormed (h : e.Handled a e') (he : e.WellFormed) : e'.WellFormed := by
  cases h with
  | present _ he' | replaced _ he' => exact he'
  | past _ _ _ hformer hmachine hdecoder =>
    refine ⟨hmachine ▸ he.machine, ?_⟩
    rw [hdecoder, hformer, Array.size_setIfInBounds, he.decoder]

/-- A former machine is changed only by the instructions that are bound to it. -/
theorem former (h : e.Handled a e') (hk : k < e.former.size)
    (ha : ∀ held, a = .execute held → held.owner ≠ k) : e'.former[k]? = e.former[k]? := by
  cases h with
  | present hformer => rw [hformer]
  | replaced hformer => rw [hformer, Array.getElem?_push, if_neg (Nat.ne_of_lt hk)]
  | past held m heq hformer =>
    rw [hformer, Array.getElem?_setIfInBounds_ne (ha held heq)]

theorem sound (h : e.Handled a e') (hs : e.SoundFrom k) : e'.SoundFrom k := by
  have he' := h.wellFormed hs.wellFormed
  refine ⟨fun j hj => ?_, he'.decoder⟩
  by_cases hlt : e'.former.size ≤ j
  · rw [machineAt_of_le hlt]
    exact he'.machine
  cases h with
  | present hformer =>
    rw [hformer] at hlt
    rw [machineAt_congr (by rw [hformer]) (Nat.lt_of_not_le hlt)]
    exact hs.machine j hj
  | replaced hformer =>
    rw [hformer, Array.size_push] at hlt
    rw [machineAt_of_push hformer (by omega)]
    exact hs.machine j hj
  | past held m _ hformer _ _ hm =>
    rw [hformer, Array.size_setIfInBounds] at hlt
    by_cases howner : held.owner = j
    · have hj' : e'.former[j]? = some m := by
        rw [hformer, howner, Array.getElem?_setIfInBounds_self_of_lt (Nat.lt_of_not_le hlt)]
      rw [machineAt_of_getElem? hj']
      exact hm (howner ▸ hs.machine j hj)
    · rw [machineAt_congr (by rw [hformer, Array.getElem?_setIfInBounds_ne howner])
        (Nat.lt_of_not_le hlt)]
      exact hs.machine j hj

end Handled

theorem handleAll_sound (hs : e.SoundFrom k) (as : List Handling) :
    (e.handleAll as).SoundFrom k ∧ e.former.size ≤ (e.handleAll as).former.size := by
  induction as generalizing e with
  | nil => exact ⟨hs, Nat.le_refl _⟩
  | cons a as ih =>
    have ha := handle_handled hs.wellFormed a
    obtain ⟨hsound, hsize⟩ := ih (ha.sound hs)
    exact ⟨hsound, Nat.le_trans ha.size_le hsize⟩

/-- However many handlings follow, a former machine is changed only by the instructions that are
bound to it. -/
theorem former_handleAll (he : e.WellFormed) (hk : k < e.former.size) {as : List Handling}
    (has : ∀ held, .execute held ∈ as → held.owner ≠ k) :
    (e.handleAll as).former[k]? = e.former[k]? := by
  induction as generalizing e with
  | nil => rfl
  | cons a as ih =>
    have ha := handle_handled he a
    have hfirst : ∀ held, a = .execute held → held.owner ≠ k := fun held heq =>
      has held (heq ▸ List.mem_cons_self ..)
    rw [handleAll, ih (ha.wellFormed he) (Nat.lt_of_lt_of_le hk ha.size_le)
      fun held hheld => has held (List.mem_cons_of_mem _ hheld)]
    exact ha.former hk hfirst

/-- A replacement that goes through puts the present machine behind the former ones. -/
theorem former_replaced {op : Operation} (hop : op.Replaces) (hok : (e.step op).1 = .ok ()) :
    (e.step op).2.former = e.former.push e.machine := by
  cases op with
  | load program =>
    simp only [step, load] at hok ⊢
    split
    · cases hm : Machine.loaded program <;> rfl
    · rename_i hfits
      rw [if_neg hfits] at hok
      cases hok
  | boot => rfl
  | _ => exact hop.elim

/-! ## Instructions that outlive their machine -/

/-- The emulator with a former machine back in its place, as though nothing had come behind it. -/
def rewound (e : Emulator) (k : Nat) (m : Machine) : Emulator :=
  { e with machine := m, former := e.former.take k, decoder := { owner := k } }

/-- What executing an instruction does that is bound to a former machine. -/
structure ActsBack (e : Emulator) (held : Held) (old : Machine) : Prop where
  /-- That machine is the one it is bound to. -/
  bound : e.former[held.owner]? = some old
  /-- The present machine stays as it is. -/
  machine : (e.execute held).2.machine = e.machine
  /-- So does the decoder, which goes on reading for the present machine. -/
  decoder : (e.execute held).2.decoder = e.decoder
  /-- So does the mode. -/
  mode : (e.execute held).2.mode = e.mode
  /-- So does every other machine. -/
  others : ∀ k, k ≠ held.owner → (e.execute held).2.former[k]? = e.former[k]?
  /-- So does whether tracing is on. -/
  live : (e.execute held).2.live = e.live
  /-- Only a trace is logged. It shows the present machine, not the one that the instruction is
  bound to. -/
  log : (e.execute held).2.log = (e.trace held.instr).log
  /-- The result is as if that machine were back in its place, -/
  result : (e.execute held).1 = ((e.rewound held.owner old).execute held).1
  /-- and so is what becomes of it, -/
  own : (e.execute held).2.former[held.owner]? =
    some ((e.rewound held.owner old).execute held).2.machine
  /-- and of the host. -/
  rewound_host : (e.execute held).2.host = ((e.rewound held.owner old).execute held).2.host
  /-- Of the host only the redraw changes, if it draws a sprite, and the values that are drawn, if
  it loads a random one. -/
  host : (e.execute held).2.host =
    { e.host with
      presenter.redrawPending := e.host.presenter.redrawPending || held.instr.kind = .draw
      random.drawn := e.host.random.drawn + if held.instr.kind = .random then 1 else 0 }
  /-- It fails only as a call on a full stack or a return on an empty one, the stack being that of
  the machine it is bound to. -/
  fault_iff : ∀ f, (e.execute held).1 = .error f ↔
    (f = .stack .overflow ∧ held.instr.kind = .call ∧ old.stack.depth = stackSize) ∨
      (f = .stack .underflow ∧ held.instr.kind = .ret ∧ old.stack.depth = 0)

/-- In its own place the machine that an instruction is bound to is the present one. -/
theorem execute_rewound (h : e.former[held.owner]? = some old) :
    (e.rewound held.owner old).execute held =
      match held.instr.exec old e.host with
      | .error f => (.error f, (e.rewound held.owner old).trace held.instr)
      | .ok (machine, host) =>
        (.ok (), { (e.rewound held.owner old).trace held.instr with machine, host }) := by
  have hlt : held.owner < e.former.size := (Array.getElem?_eq_some_iff.1 h).1
  have howner : (e.rewound held.owner old).former.size = held.owner := by
    simp only [rewound, Array.take_eq_extract, Array.size_extract]
    omega
  have hpresent := execute_present (e := e.rewound held.owner old) held.instr
  rw [howner] at hpresent
  exact hpresent

/-- Whether an instruction bound to a former machine fails lies with that machine. -/
theorem execute_former_error_iff (h : e.former[held.owner]? = some old) (hold : old.WellFormed)
    (f : Fault) :
    (e.execute held).1 = .error f ↔
      (f = .stack .overflow ∧ held.instr.kind = .call ∧ old.stack.depth = stackSize) ∨
        (f = .stack .underflow ∧ held.instr.kind = .ret ∧ old.stack.depth = 0) := by
  rw [← (Instr.exec_executed hold e.host).error_iff, execute_former h]
  cases held.instr.exec old e.host with
  | error f' => simp only [Except.error.injEq]
  | ok r => simp only [reduceCtorEq]

theorem actsBack (h : e.former[held.owner]? = some old) (hold : old.WellFormed) :
    e.ActsBack held old := by
  have hlt : held.owner < e.former.size := (Array.getElem?_eq_some_iff.1 h).1
  have hexecute := execute_former h
  have hrewound := execute_rewound h
  have hfault := execute_former_error_iff h hold
  have hx := Instr.exec_executed (i := held.instr) hold e.host
  cases hexec : held.instr.exec old e.host with
  | error f =>
    rw [hexec] at hexecute hrewound hx
    dsimp only at hexecute hrewound
    -- Neither a call nor a return reaches the host.
    have hkind : held.instr.kind ≠ .draw ∧ held.instr.kind ≠ .random := by
      rcases (hx.error_iff f).1 rfl with ⟨-, hk, -⟩ | ⟨-, hk, -⟩ <;> simp [hk]
    exact {
      bound := h
      machine := by rw [hexecute, machine_trace]
      decoder := by rw [hexecute, decoder_trace]
      mode := by rw [hexecute, mode_trace]
      others := fun k _ => by rw [hexecute, former_trace]
      live := by rw [hexecute, live_trace]
      log := by rw [hexecute]
      result := by rw [hexecute, hrewound]
      own := by
        rw [hexecute, hrewound, former_trace, h, machine_trace]
        rfl
      rewound_host := by
        rw [hexecute, hrewound, host_trace, host_trace]
        rfl
      host := by
        rw [hexecute, host_trace]
        simp [hkind]
      fault_iff := hfault }
  | ok r =>
    rw [hexec] at hexecute hrewound hx
    dsimp only at hexecute hrewound
    exact {
      bound := h
      machine := by
        rw [hexecute]
        exact machine_trace ..
      decoder := by
        rw [hexecute]
        exact decoder_trace ..
      mode := by
        rw [hexecute]
        exact mode_trace ..
      others := fun k hk => by
        rw [hexecute]
        exact Array.getElem?_setIfInBounds_ne hk.symm
      live := by
        rw [hexecute]
        exact live_trace ..
      log := by rw [hexecute]
      result := by rw [hexecute, hrewound]
      own := by
        rw [hexecute, hrewound]
        exact Array.getElem?_setIfInBounds_self_of_lt hlt
      rewound_host := by rw [hexecute, hrewound]
      host := by
        rw [hexecute]
        cases hx
        exact Instr.touch_eq ..
      fault_iff := hfault }

/-- **Held instructions.** An instruction is decoded, and of all that happens behind that, something
puts another machine in place of the one it is bound to. Whenever it is executed then, it acts on
its own machine as it would if that were still in its place, and beyond that on the redraw, the
random values and the log at most: the present machine, the decoder, the mode and every other
machine stay as they are. That machine is as the replacement found it, unless instructions bound to
it were executed since. -/
theorem execute_outlived {e : Emulator} (he : e.WellFormed) {held : Held}
    (hheld : e.decode.1 = .ok held) (before after : List Handling) {op : Operation}
    (hop : op.Replaces) (hok : ((e.decode.2.handleAll before).step op).1 = .ok ()) :
    e.decode.2.machineAt held.owner = e.decode.2.machine ∧
      ∃ old, (e.decode.2.handleAll (before ++ .operation op :: after)).ActsBack held old ∧
        ((∀ bound, .execute bound ∈ after → bound.owner ≠ held.owner) →
          old = (e.decode.2.handleAll before).machineAt held.owner) := by
  have hdecoded := decode_wellFormed he
  have howner : held.owner = e.decode.2.former.size := by
    rw [he.bindsPresent.owner held hheld, he.bindsPresent.former]
  rw [handleAll_append, handleAll, handle]
  generalize e.decode.2 = e₀ at hdecoded howner hok ⊢
  refine ⟨machineAt_of_le (Nat.le_of_eq howner.symm), ?_⟩
  have hsound₀ : e₀.SoundFrom held.owner := howner ▸ soundFrom_present hdecoded
  obtain ⟨hsound₁, hsize₁⟩ := handleAll_sound hsound₀ before
  generalize e₀.handleAll before = e₁ at hsound₁ hsize₁ hok ⊢
  have hsound₂ := (step_handled hsound₁.wellFormed op).sound hsound₁
  have hformer₂ := former_replaced hop hok
  have hkept₂ : (e₁.step op).2.machineAt held.owner = e₁.machineAt held.owner :=
    machineAt_of_push hformer₂ (howner ▸ hsize₁)
  have hlt₂ : held.owner < (e₁.step op).2.former.size := by
    rw [hformer₂, Array.size_push]
    omega
  generalize (e₁.step op).2 = e₂ at hsound₂ hkept₂ hlt₂ ⊢
  obtain ⟨hsound₃, hsize₃⟩ := handleAll_sound hsound₂ after
  have hbound := getElem?_former (Nat.lt_of_lt_of_le hlt₂ hsize₃)
  refine ⟨_, actsBack hbound (hsound₃.machine _ (Nat.le_refl _)), fun hafter => ?_⟩
  rw [machineAt_congr (former_handleAll hsound₂.wellFormed hlt₂ hafter) hlt₂, hkept₂]

/-- A call that is held fills the stack of its machine in sixteen executions. When the machine has
been replaced it still finds that stack full, not the empty one of the machine in its place. -/
theorem execute_outlived_full :
    let e : Emulator := { machine := { Machine.booted with opcode := 0x2ABC }, host := .still }
    let held : Held := ⟨.ofKind .call 0x2ABC, 0⟩
    let filled := e.decode.2.handleAll (List.replicate 16 (.execute held))
    let e' := e.decode.2.handleAll (List.replicate 16 (.execute held) ++ [.operation .boot])
    e.WellFormed ∧ e.decode.1 = .ok held ∧ Operation.boot.Replaces ∧
      (filled.step .boot).1 = .ok () ∧ (e'.execute held).1 = .error (.stack .overflow) ∧
      (e'.execute held).2.machine = .booted := by
  intro e held filled e'
  have he : e.WellFormed := ⟨Machine.wellFormed_booted.setOpcode (by decide), rfl⟩
  have hword : Instr.ofWord? e.machine.opcode = some held.instr := by decide
  have hheld : e.decode.1 = .ok held := by
    rw [decode_running he.decoder rfl, Machine.decode, hword]
    rfl
  have hreplaces : Operation.boot.Replaces := trivial
  have hok : (filled.step .boot).1 = .ok () := rfl
  obtain ⟨-, old, (hback : e'.ActsBack held old), hold⟩ :=
    execute_outlived he hheld _ [] hreplaces hok
  have hfull : old.stack.depth = stackSize := by
    rw [hold fun _ h => absurd h List.not_mem_nil]
    decide +kernel
  have hboot : e' = filled.boot := handleAll_append ..
  have hfault : (e'.execute held).1 = .error (.stack .overflow) :=
    (hback.fault_iff _).2 (.inl ⟨rfl, rfl, hfull⟩)
  have hbooted : ∀ e : Emulator, e.boot.machine = .booted := fun _ => rfl
  have hpresent : e'.machine = .booted := by rw [hboot, hbooted]
  exact ⟨he, hheld, hreplaces, hok, hfault, hback.machine.trans hpresent⟩

end Emulator

end Chip8
