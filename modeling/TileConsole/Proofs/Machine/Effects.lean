import Mathlib.Logic.Function.Iterate
import TileConsole.Proofs.Machine.Decoding
import TileConsole.Proofs.Machine.Loaded

namespace TileConsole

-- The errors of a tick that has not begun to execute an instruction.
inductive MachineError.Early : MachineError → Prop
  | notBooted : Early .notBooted
  | unknownByte (line pc : Int) (b : UInt8) : Early (.runtime line pc (.unknownByte b))
  | operandsCut (line pc : Int) : Early (.runtime line pc .operandsCut)

namespace Machine

-- Of the registers and the screen, only what an operation is named for has
-- changed. On the screen, a plot changes at most the pixel that the index
-- register counts to.
structure TouchesOnly (op : Operation) (machine next : Machine) : Prop where
  a : op ≠ .setA → next.a = machine.a
  x : op ≠ .setX → next.x = machine.x
  tiles : op ≠ .setVram → next.tiles = machine.tiles
  screen : op ≠ .plot → op ≠ .drawTiles → next.screen = machine.screen
  pixel : op = .plot → ∀ (i : Nat) (h : i < screenWidth * screenHeight), i ≠ machine.x.toNat →
    next.screen[i] = machine.screen[i]

theorem touchesOnly_execute (machine : Machine) (decoded : Decoded) :
    TouchesOnly decoded.op machine (decoded.execute machine) := by
  cases decoded with
  | plot =>
    refine ⟨fun _ => rfl, fun _ => rfl, fun _ => rfl, fun h => absurd rfl h, fun _ i hi hne => ?_⟩
    simp only [Decoded.execute, plot]
    exact Screen.getElem_plot_of_ne machine.screen machine.a hi (by rwa [Screen.place_linear])
  | setA value =>
    exact ⟨fun h => absurd rfl h, fun _ => rfl, fun _ => rfl, fun _ _ => rfl, fun h => by cases h⟩
  | setX value =>
    exact ⟨fun _ => rfl, fun h => absurd rfl h, fun _ => rfl, fun _ _ => rfl, fun h => by cases h⟩
  | setVram value =>
    exact ⟨fun _ => rfl, fun _ => rfl, fun h => absurd rfl h, fun _ _ => rfl, fun h => by cases h⟩
  | drawTiles x y =>
    exact ⟨fun _ => rfl, fun _ => rfl, fun _ => rfl, fun _ h => absurd rfl h, fun h => by cases h⟩
  | nop | jump _ | halt =>
    exact ⟨fun _ => rfl, fun _ => rfl, fun _ => rfl, fun _ _ => rfl, fun h => by cases h⟩

theorem pc_execute (machine : Machine) (decoded : Decoded) :
    (decoded.execute machine).pc = decoded.nextPc machine := by
  cases decoded <;> rfl

theorem ticks_execute (machine : Machine) (decoded : Decoded) :
    (decoded.execute machine).ticks = machine.ticks + 1 := by
  cases decoded <;> rfl

theorem nextPc_mem {machine : Machine} {decoded : Decoded} (hstart : 0 ≤ machine.pc)
    (hend : machine.pc.toNat + decoded.op.size ≤ machine.codeSize) :
    0 ≤ decoded.nextPc machine ∧ decoded.nextPc machine ≤ machine.codeSize := by
  cases decoded with
  | jump target =>
    unfold Decoded.nextPc
    dsimp only
    split <;> omega
  | halt => exact ⟨Int.natCast_nonneg _, Int.le_refl _⟩
  | _ =>
    simp only [Decoded.nextPc]
    omega

-- The only instruction that fails stops the program.
theorem execute_of_fault {machine : Machine} {decoded : Decoded} {fault : RunFault}
    (h : decoded.fault? machine = some fault) :
    decoded.execute machine =
      { machine with pc := machine.codeSize, ticks := machine.ticks + 1 } := by
  cases decoded with
  | jump target =>
    simp only [Decoded.fault?, Option.ite_none_left_eq_some] at h
    simp only [Decoded.execute, Decoded.nextPc, if_neg h.1]
  | _ => cases h

-- The ways in which a tick can go.
inductive Effect (listing : Option Program) (machine : Machine) :
    Machine × Except MachineError Bool → Prop
  | refused {error : MachineError} (h : error.Early) :
    Effect listing machine (machine, .error error)
  | ended (hdone : machine.done) : Effect listing machine (machine, .ok true)
  | stopped (hbooted : machine.booted) :
    Effect listing machine ({ machine with pc := machine.codeSize, ticks := machine.ticks + 1 },
      .error (faultAt listing machine.pc .jumpOutside))
  | executed {decoded : Decoded} {args : Bytes} (hrunning : ¬machine.done)
    (hfetch : machine.fetch = .ok (decoded.op, args)) :
    Effect listing machine (decoded.execute machine, .ok (decoded.execute machine).done)

theorem early_faultAt {listing : Option Program} {pc : Int} {fault : RunFault}
    (h : ∀ line, (MachineError.runtime line pc fault).Early) :
    (faultAt listing pc fault).Early := by
  cases listing with
  | none => exact h 0
  | some program => exact h (program.lineOf pc)

theorem effect_tick (listing : Option Program) {machine : Machine}
    (hfits : machine.codeSize ≤ ramSize) : Effect listing machine (machine.tick listing) := by
  by_cases hbooted : machine.booted
  · by_cases hdone : machine.done
    · rw [tick_of_done listing hbooted hdone]
      exact .ended hdone
    · rcases tick_running listing hbooted hdone hfits with
        ⟨b, -, htick⟩ | ⟨-, htick⟩ | ⟨decoded, args, hfetch, -, htick⟩
      · rw [htick]
        exact .refused (early_faultAt fun line => .unknownByte line machine.pc b)
      · rw [htick]
        exact .refused (early_faultAt fun line => .operandsCut line machine.pc)
      · rw [htick, Decoded.answer]
        cases hfault : decoded.fault? machine with
        | none => exact .executed hdone hfetch
        | some fault =>
          rw [execute_of_fault hfault, fault?_eq_some hfault]
          exact .stopped hbooted
  · rw [tick_of_unbooted listing hbooted]
    exact .refused .notBooted

section Outcome

variable {listing : Option Program} {machine : Machine}
  {outcome : Machine × Except MachineError Bool}

theorem reported?_of_early {error : MachineError} (h : error.Early) :
    reported? (.error error) ≠ some .jumpOutside := by
  cases h <;> simp [reported?]

theorem Effect.unchanged (h : Effect listing machine outcome) {error : MachineError}
    (herror : outcome.2 = .error error) (hearly : error.Early) :
    outcome = (machine, .error error) := by
  cases h with
  | refused => exact Prod.ext rfl herror
  | ended => cases herror
  | executed => cases herror
  | stopped =>
    obtain rfl := Except.error.inj herror
    exact absurd (reported?_faultAt listing machine.pc _) (reported?_of_early hearly)

theorem Effect.stop (h : Effect listing machine outcome)
    (hreported : reported? outcome.2 = some .jumpOutside) :
    machine.booted ∧
      outcome.1 = { machine with pc := machine.codeSize, ticks := machine.ticks + 1 } := by
  cases h with
  | refused hearly => exact absurd hreported (reported?_of_early hearly)
  | ended => cases hreported
  | executed => cases hreported
  | stopped hbooted => exact ⟨hbooted, rfl⟩

theorem Effect.early_or_jumpOutside (h : Effect listing machine outcome) {error : MachineError}
    (herror : outcome.2 = .error error) :
    error.Early ∨ reported? outcome.2 = some .jumpOutside := by
  cases h with
  | refused hearly => exact .inl (Except.error.inj herror ▸ hearly)
  | ended => cases herror
  | executed => cases herror
  | stopped => exact .inr (reported?_faultAt listing machine.pc _)

-- A tick that succeeds before the program has ended executes one instruction.
theorem Effect.execution (h : Effect listing machine outcome) {ended : Bool}
    (hok : outcome.2 = .ok ended) (hrunning : ¬machine.done) :
    ∃ (decoded : Decoded) (args : Bytes), machine.fetch = .ok (decoded.op, args) ∧
      outcome.1 = decoded.execute machine ∧ ended = outcome.1.done := by
  cases h with
  | refused => cases hok
  | ended hdone => exact absurd hdone hrunning
  | stopped => cases hok
  | @executed decoded args _ hfetch => exact ⟨decoded, args, hfetch, rfl, (Except.ok.inj hok).symm⟩

end Outcome

-- A tick that does not move the machine is repeated by every later one.
theorem tick_iterate_of_fixed {listing : Option Program} {machine : Machine}
    (h : (machine.tick listing).1 = machine) (count : Nat) :
    ((fun current => (tick listing current).1)^[count] machine).tick listing =
      machine.tick listing := by
  rw [Function.iterate_fixed h]

-- A tick that fails before it executes anything leaves no trace, a jump out of the
-- code stops the machine for good, and any other tick changes no more than its
-- operation says.
theorem tick_frame (listing : Option Program) (machine : Machine)
    (hfits : machine.codeSize ≤ ramSize) :
    let next := (machine.tick listing).1
    let answer := (machine.tick listing).2
    let later := fun count : Nat =>
      ((fun current => (tick listing current).1)^[count] next).tick listing
    (∀ error, answer = .error error → error.Early →
      next = machine ∧ ∀ count, later count = (machine, .error error)) ∧
    (reported? answer = some .jumpOutside →
      next = { machine with pc := machine.codeSize, ticks := machine.ticks + 1 } ∧
        ∀ count, later count = (next, .ok true)) ∧
    (∀ error, answer = .error error → error.Early ∨ reported? answer = some .jumpOutside) ∧
    (machine.booted → machine.done → machine.tick listing = (machine, .ok true)) ∧
    ∀ ended, answer = .ok ended → ¬machine.done →
      next.ticks = machine.ticks + 1 ∧ ended = next.done ∧
      0 ≤ next.pc ∧ next.pc ≤ machine.codeSize ∧ machine.Keeps next ∧
      ∃ op : Operation, machine.ram[machine.pc.toNat]? = some op.code ∧
        TouchesOnly op machine next := by
  intro next answer later
  have heffect := effect_tick listing hfits
  refine ⟨?_, ?_, fun error => heffect.early_or_jumpOutside, tick_of_done listing, ?_⟩
  · intro error herror hearly
    have htick := heffect.unchanged herror hearly
    have hnext : next = machine := congrArg Prod.fst htick
    refine ⟨hnext, fun count => ?_⟩
    simp only [later, hnext]
    rw [tick_iterate_of_fixed hnext, htick]
  · intro hreported
    obtain ⟨hbooted, hnext⟩ := heffect.stop hreported
    have hdone : next.done := by
      rw [show next = _ from hnext]
      simp [done]
    have hagain := tick_of_done listing ((Keeps.tick listing machine).booted.trans hbooted) hdone
    refine ⟨hnext, fun count => ?_⟩
    rw [← hagain]
    exact tick_iterate_of_fixed (by rw [hagain]) count
  · intro ended hok hrunning
    obtain ⟨decoded, args, hfetch, hnext, hended⟩ := heffect.execution hok hrunning
    have hfetched := fetch_eq_ok_iff.mp hfetch
    have hpc := nextPc_mem (pc_lt_of_not_done hrunning).1 hfetched.room
    have hkeeps : machine.Keeps next := Keeps.tick listing machine
    rw [show next = _ from hnext] at hkeeps ⊢
    rw [ticks_execute, pc_execute]
    exact ⟨rfl, hnext ▸ hended, hpc.1, hpc.2, hkeeps, decoded.op, hfetched.opcode,
      touchesOnly_execute machine decoded⟩

-- A jump that leaves a code section of three bytes.
theorem tick_frame_jump_outside :
    let machine := (unbooted.boot ⟨0, [0x04, 0x09, 0x00], []⟩).1
    let next := (machine.tick none).1
    machine.codeSize ≤ ramSize ∧ (machine.tick none).2 = .error (.runtime 0 0 .jumpOutside) ∧
      next = { machine with pc := 3, ticks := 1 } ∧
      ∀ count, ((fun current => (tick none current).1)^[count] next).tick none =
        (next, .ok true) := by
  intro machine next
  have hloaded : machine.Loaded ⟨0, [0x04, 0x09, 0x00], []⟩ := (boot_loaded unbooted (by decide)).2
  have hfits : machine.codeSize ≤ ramSize := by
    rw [hloaded.codeSize]
    decide
  have hanswer : (machine.tick none).2 = .error (.runtime 0 0 .jumpOutside) := by
    rw [@Loaded.tick_eq _ _ hloaded (by decide) 0 rfl .jump [0x09, 0x00] [] rfl rfl none]
    rfl
  obtain ⟨-, hstop, -⟩ := tick_frame none machine hfits
  obtain ⟨hnext, hlater⟩ := hstop (by rw [hanswer]; rfl)
  exact ⟨hfits, hanswer, hnext, hlater⟩

end Machine

end TileConsole
