import Mathlib.Logic.Function.Iterate
import TileConsole.Proofs.Machine.Effects
import TileConsole.Proofs.Machine.FaultLines
import TileConsole.Proofs.Machine.Replay

namespace TileConsole

-- A whole jump lies at an address of some code.
def Bytes.JumpsTo (code : Bytes) (address target : Nat) : Prop :=
  ∃ low high rest, code.drop address = Operation.jump.code :: low :: high :: rest ∧
    low.toNat + 256 * high.toNat = target

namespace Machine

-- The machine after a number of ticks, whatever they answered.
def afterTicks (machine : Machine) (listing : Option Program) (count : Nat) : Machine :=
  (fun before => (before.tick listing).1)^[count] machine

theorem afterTicks_succ (machine : Machine) (listing : Option Program) (count : Nat) :
    machine.afterTicks listing (count + 1) = ((machine.afterTicks listing count).tick listing).1 :=
  Function.iterate_succ_apply' _ _ _

theorem pc_add_le {machine : Machine} {listing : Option Program} {count : Nat}
    (h : ∀ i < count,
      (machine.afterTicks listing i).pc < (machine.afterTicks listing (i + 1)).pc) :
    machine.pc + count ≤ (machine.afterTicks listing count).pc := by
  induction count with
  | zero => simp [afterTicks]
  | succ count ih =>
    have hbefore := ih fun i hi => h i (by omega)
    have hlast := h count (by omega)
    omega

section Step

variable {machine : Machine} {op : Operation} {args : Bytes}

-- Of all operations, only a jump can lead back.
theorem le_pc_perform (hend : machine.pc ≤ machine.codeSize) (hop : op ≠ .jump) (args : Bytes) :
    machine.pc ≤ (machine.perform op args).1.pc := by
  cases op with
  | jump => exact absurd rfl hop
  | halt => exact hend
  | _ => simp [perform, plot, drawTiles]

theorem pc_perform_jump (h : ¬(machine.perform .jump args).1.done) :
    (machine.perform .jump args).1.pc = Bytes.toNat args := by
  simp only [perform] at h ⊢
  split at h
  case isTrue => simp [done] at h
  case isFalse hinside => rw [if_neg hinside]

-- The program goes on after a tick that says so.
theorem running_of_tick (hfits : machine.codeSize ≤ ramSize) {listing : Option Program}
    (h : (machine.tick listing).2 = .ok false) :
    ¬machine.done ∧ ¬(machine.tick listing).1.done := by
  have heffect := effect_tick listing hfits
  generalize machine.tick listing = outcome at heffect h ⊢
  cases heffect with
  | refused => cases h
  | ended => cases h
  | stopped => cases h
  | executed hrunning => exact ⟨hrunning, by simpa using Except.ok.inj h⟩

end Step

section Loaded

variable {cartridge : Cartridge} {machine : Machine}

theorem Loaded.codeSize_le (h : machine.Loaded cartridge)
    (hfits : cartridge.code.length ≤ ramSize) : machine.codeSize ≤ ramSize :=
  h.codeSize ▸ hfits

-- A jump that is fetched lies in the code of the cartridge.
theorem Loaded.jumpsTo (h : machine.Loaded cartridge) (hfits : cartridge.code.length ≤ ramSize)
    {args : Bytes} (hfetch : machine.fetch = .ok (.jump, args)) :
    cartridge.code.JumpsTo machine.pc.toNat (Bytes.toNat args) := by
  obtain ⟨hbyte, hroom, hbytes⟩ := fetch_eq_ok_iff.mp hfetch
  have hwhole : machine.pc.toNat + 3 ≤ cartridge.code.length := h.codeSize ▸ hroom
  have hopcode : cartridge.code[machine.pc.toNat]? = some Operation.jump.code := by
    rw [← getElem?_memory_of_lt hfits (by omega), ← h.ram]
    exact hbyte
  have hdrop : cartridge.code.drop machine.pc.toNat =
      Operation.jump.code :: cartridge.code.drop (machine.pc.toNat + 1) := by
    rw [List.drop_eq_getElem?_toList_append, hopcode]
    rfl
  have hargs : (cartridge.code.drop (machine.pc.toNat + 1)).take 2 = args := by
    rw [bytesAt?_eq h.ram hfits (by simp only [Operation.shape, Shape.width]; omega)] at hbytes
    exact Option.some.inj hbytes
  have hlength : (cartridge.code.drop (machine.pc.toNat + 1)).length ≥ 2 := by
    rw [List.length_drop]
    omega
  rcases htail : cartridge.code.drop (machine.pc.toNat + 1) with _ | ⟨low, _ | ⟨high, rest⟩⟩
  · simp [htail] at hlength
  · simp [htail] at hlength
  · rw [htail] at hdrop hargs
    refine ⟨low, high, rest, hdrop, ?_⟩
    simp [← hargs, Bytes.toNat]

-- A tick after which the program goes on has moved forward or jumped back.
theorem Loaded.pc_lt_or_jumpsTo (h : machine.Loaded cartridge)
    (hfits : cartridge.code.length ≤ ramSize) {listing : Option Program}
    (hgoes : (machine.tick listing).2 = .ok false) :
    machine.pc < (machine.tick listing).1.pc ∨
      ∃ target, cartridge.code.JumpsTo machine.pc.toNat target ∧ target ≤ machine.pc ∧
        (machine.tick listing).1.pc = target := by
  obtain ⟨hrunning, hnext⟩ := running_of_tick (h.codeSize_le hfits) hgoes
  obtain ⟨hstart, hinside⟩ := pc_lt_of_not_done hrunning
  cases hfetch : machine.fetch with
  | error fault =>
    rw [tick_of_fetch_error listing h.booted hrunning hfetch] at hgoes
    cases hgoes
  | ok found =>
    obtain ⟨op, args⟩ := found
    have hsize : 1 ≤ op.size := Nat.le_add_right 1 _
    have hend := (fetch_eq_ok_iff.mp hfetch).room
    rw [tick_of_fetch listing h.booted hrunning hfetch] at hnext ⊢
    dsimp only at hnext ⊢
    by_cases hop : op = .jump
    · subst hop
      rw [pc_perform_jump hnext]
      by_cases hforward : machine.pc < Bytes.toNat args
      · exact .inl hforward
      · exact .inr ⟨_, h.jumpsTo hfits hfetch, by omega, rfl⟩
    · left
      have hmoved := @le_pc_perform
        { machine with pc := machine.pc + op.size, ticks := machine.ticks + 1 } op
        (by dsimp only; omega) hop args
      dsimp only at hmoved
      omega

theorem Loaded.afterTicks (h : machine.Loaded cartridge) (listing : Option Program) (count : Nat) :
    (machine.afterTicks listing count).Loaded cartridge :=
  h.ticks listing count

-- A program that goes on for as many ticks as its code has bytes has jumped back.
theorem Loaded.exists_jumpsTo (h : machine.Loaded cartridge)
    (hfits : cartridge.code.length ≤ ramSize) {listing : Option Program}
    (hcode : 1 ≤ cartridge.code.length)
    (hgoes : ∀ i < cartridge.code.length,
      ((machine.afterTicks listing i).tick listing).2 = .ok false) :
    ∃ i < cartridge.code.length, ∃ target : Nat,
      cartridge.code.JumpsTo (machine.afterTicks listing i).pc.toNat target ∧
        target ≤ (machine.afterTicks listing i).pc ∧
        (machine.afterTicks listing (i + 1)).pc = target := by
  by_contra hnone
  have hforward : ∀ i < cartridge.code.length,
      (machine.afterTicks listing i).pc < (machine.afterTicks listing (i + 1)).pc := by
    intro i hi
    rw [afterTicks_succ]
    rcases (h.afterTicks listing i).pc_lt_or_jumpsTo hfits (hgoes i hi) with hmoved | hback
    · exact hmoved
    · rw [← afterTicks_succ] at hback
      exact absurd ⟨i, hi, hback⟩ hnone
  have hfar := pc_add_le hforward
  have hsize (i : Nat) : (machine.afterTicks listing i).codeSize ≤ ramSize :=
    (h.afterTicks listing i).codeSize_le hfits
  obtain ⟨hfirst, -⟩ := running_of_tick (hsize 0) (hgoes 0 hcode)
  have hstart : 0 ≤ machine.pc := (pc_lt_of_not_done hfirst).1
  obtain ⟨-, hlast⟩ := running_of_tick (hsize _) (hgoes (cartridge.code.length - 1) (by omega))
  rw [← afterTicks_succ, Nat.sub_add_cancel hcode] at hlast
  have hinside := (pc_lt_of_not_done hlast).2
  rw [(h.afterTicks listing cartridge.code.length).codeSize] at hinside
  omega

end Loaded

-- Only jumps that lead back, or to themselves, make a program run on. One whose
-- jumps all lead forward comes to its end or fails before it has made more ticks
-- than its code has bytes.
theorem runs_on_by_jumping_back (machine : Machine) (cartridge : Cartridge)
    (haccepted : (machine.boot cartridge).2 = none) (listing : Option Program) :
    let start := (machine.boot cartridge).1
    let size := cartridge.code.length
    (∀ requests : List Request, (∀ request ∈ requests, request.accepted? = none) →
      let current := (start.after requests).afterTicks listing
      1 ≤ size → (∀ i < size, ((current i).tick listing).2 = .ok false) →
        ∃ i < size, ∃ target : Nat, cartridge.code.JumpsTo (current i).pc.toNat target ∧
          target ≤ (current i).pc ∧ (current (i + 1)).pc = target) ∧
    let current := start.afterTicks listing
    (∀ i < max size 1, ∀ target : Nat, cartridge.code.JumpsTo (current i).pc.toNat target →
      (current i).pc < target) →
    ∃ i < max size 1, ((current i).tick listing).2 ≠ .ok false := by
  intro start size
  have hfits := (boot_accepts_iff machine cartridge).mp haccepted
  have hloaded : start.Loaded cartridge := (machine.boot_loaded hfits).2
  refine ⟨?_, ?_⟩
  · intro requests hrequests current hsize hgoes
    exact (hloaded.of_keeps (Keeps.after start hrequests)).exists_jumpsTo hfits hsize hgoes
  · intro current hforward
    by_contra hnone
    have hgoes : ∀ i < max size 1, ((current i).tick listing).2 = .ok false := by
      intro i hi
      by_contra hstops
      exact hnone ⟨i, hi, hstops⟩
    -- An empty program is over before its first tick.
    have hsize : 1 ≤ size := by
      have hnone := hloaded.afterTicks listing 0
      obtain ⟨hrunning, -⟩ := running_of_tick (hnone.codeSize_le hfits) (hgoes 0 (by omega))
      have hinside := (pc_lt_of_not_done hrunning).2
      rw [hnone.codeSize] at hinside
      omega
    obtain ⟨i, hi, target, hjump, hback, -⟩ :=
      hloaded.exists_jumpsTo hfits hsize fun i hi => hgoes i (by omega)
    have hahead := hforward i (by omega) target hjump
    exact absurd hback (Int.not_le.mpr hahead)

-- One program starts at its second byte and jumps back there for ever, another
-- jumps over a byte that is no operation.
theorem runs_on_by_jumping_back_or_ends :
    let loop : Cartridge := ⟨1, [0xFF, 0x00, 0x04, 0x01, 0x00], []⟩
    let ahead : Cartridge := ⟨0, [0x04, 0x04, 0x00, 0x77, 0x00], []⟩
    let looping := (unbooted.boot loop).1.afterTicks none
    let going := (unbooted.boot ahead).1.afterTicks none
    (unbooted.boot loop).2 = none ∧ (∀ i < 5, ((looping i).tick none).2 = .ok false) ∧
    (∃ i < 5, ∃ target : Nat, loop.code.JumpsTo (looping i).pc.toNat target ∧
      target ≤ (looping i).pc ∧ (looping (i + 1)).pc = target) ∧
    (unbooted.boot ahead).2 = none ∧
    (∀ i < 5, ∀ target : Nat, ahead.code.JumpsTo (going i).pc.toNat target →
      (going i).pc < target) ∧
    ∃ i < 5, ((going i).tick none).2 ≠ .ok false := by
  intro loop ahead looping going
  have hloop : (unbooted.boot loop).1.Loaded loop := (unbooted.boot_loaded (by decide)).2
  have hahead : (unbooted.boot ahead).1.Loaded ahead := (unbooted.boot_loaded (by decide)).2
  have hcycle : ∀ machine : Machine, machine.Loaded loop → machine.pc = 1 ∨ machine.pc = 2 →
      ((machine.tick none).1.pc = 1 ∨ (machine.tick none).1.pc = 2) ∧
        (machine.tick none).2 = .ok false := by
    rintro machine hloaded (hpc | hpc)
    · rw [@Loaded.tick_eq _ _ hloaded (by decide) 1 hpc .nop [] [0x04, 0x01, 0x00] rfl rfl none]
      simp [perform, done, hpc, hloaded.codeSize, loop, Operation.size, Operation.shape, Shape.width]
    · rw [@Loaded.tick_eq _ _ hloaded (by decide) 2 hpc .jump [0x01, 0x00] [] rfl rfl none]
      simp [perform, done, hloaded.codeSize, loop, Bytes.toNat]
  have hlooping : ∀ i, (looping i).pc = 1 ∨ (looping i).pc = 2 := by
    intro i
    induction i with
    | zero => exact .inl rfl
    | succ i ih =>
      rw [show looping (i + 1) = _ from afterTicks_succ _ none i]
      exact (hcycle _ (hloop.afterTicks none i) ih).1
  have hgoes : ∀ i < 5, ((looping i).tick none).2 = .ok false :=
    fun i _ => (hcycle _ (hloop.afterTicks none i) (hlooping i)).2
  have hgoing : ∀ i, (going i).pc = 0 ∨ (going i).pc = 4 ∨ (going i).pc = 5 := by
    intro i
    induction i with
    | zero => exact .inl rfl
    | succ i ih =>
      have hloaded : (going i).Loaded ahead := hahead.afterTicks none i
      rw [show going (i + 1) = _ from afterTicks_succ _ none i]
      change ((going i).tick none).1.pc = 0 ∨ ((going i).tick none).1.pc = 4 ∨
        ((going i).tick none).1.pc = 5
      rcases ih with hpc | hpc | hpc
      · rw [@Loaded.tick_eq _ _ hloaded (by decide) 0 hpc .jump [0x04, 0x00] [0x77, 0x00] rfl rfl
          none]
        simp [perform, hloaded.codeSize, ahead, Bytes.toNat]
      · rw [@Loaded.tick_eq _ _ hloaded (by decide) 4 hpc .nop [] [] rfl rfl none]
        simp [perform, hpc, Operation.size, Operation.shape, Shape.width]
      · have hdone : (going i).done := by simp [done, hpc, hloaded.codeSize, ahead]
        rw [tick_of_done none hloaded.booted hdone]
        exact .inr (.inr hpc)
  have hforward : ∀ i < 5, ∀ target : Nat, ahead.code.JumpsTo (going i).pc.toNat target →
      (going i).pc < target := by
    rintro i - target ⟨low, high, rest, hdrop, rfl⟩
    rcases hgoing i with hpc | hpc | hpc
    · rw [hpc] at hdrop ⊢
      have hjump : [0x04, 0x04, 0x00, 0x77, 0x00] = Operation.jump.code :: low :: high :: rest :=
        hdrop
      cases hjump
      decide
    · rw [hpc] at hdrop
      exact absurd hdrop (by simp [ahead])
    · rw [hpc] at hdrop
      exact absurd hdrop (by simp [ahead])
  obtain ⟨hback, -⟩ := runs_on_by_jumping_back unbooted loop (by decide) none
  obtain ⟨-, hends⟩ := runs_on_by_jumping_back unbooted ahead (by decide) none
  exact ⟨by decide, hgoes, hback [] (by simp) (by decide) hgoes, by decide, hforward,
    hends hforward⟩

end Machine

end TileConsole
