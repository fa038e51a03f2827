import TileConsole.Proofs.Bytes
import TileConsole.Proofs.Machine.Bounds
import TileConsole.Proofs.Machine.Requests

namespace TileConsole

namespace Screen

-- Every pixel has one of the sixteen colours.
def Colored (screen : Screen) : Prop :=
  ∀ color ∈ screen, color ≤ 15

theorem colored_blank : blank.Colored := by
  intro color hcolor
  obtain ⟨-, rfl⟩ := Vector.mem_replicate.mp hcolor
  decide

theorem Colored.plot {screen : Screen} (h : screen.Colored) (x y : Int) (color : UInt8) :
    (screen.plot x y color).Colored := by
  unfold Screen.plot
  split
  · intro found hfound
    rcases Vector.mem_or_eq_of_mem_set hfound with hold | rfl
    · exact h found hold
    · rw [UInt8.le_iff_toNat_le, Bytes.toNat_low]
      exact Nat.le_of_lt_succ (Nat.mod_lt _ (by decide))
  · exact h

theorem Colored.drawTiles {screen : Screen} (h : screen.Colored) (vram : VideoMemory) (start : Nat)
    (x y : Int) : (screen.drawTiles vram start x y).Colored := by
  unfold Screen.drawTiles drawPairs
  split
  · exact h
  · apply List.foldlRecOn _ _ h
    intro drawn hdrawn k _
    exact (hdrawn.plot _ _ _).plot _ _ _

end Screen

namespace Machine

-- What holds of a machine into which `cartridge` was booted last, or none at all,
-- whatever has been asked of it since.
structure Sound (cartridge : Option Cartridge) (machine : Machine) : Prop where
  codeSize_le : machine.codeSize ≤ ramSize
  booted : machine.booted = cartridge.isSome
  loaded : ∀ last, cartridge = some last →
    machine.Loaded last ∧ machine.entry = last.entry.toNat
  pc : (0 ≤ machine.pc ∧ machine.pc ≤ machine.codeSize) ∨ machine.pc = machine.entry
  screen : machine.screen.Colored

theorem sound_unbooted : unbooted.Sound none :=
  ⟨Nat.zero_le _, rfl, by simp, .inr rfl, Screen.colored_blank⟩

section Step

variable {cartridge : Option Cartridge} {machine next : Machine}

theorem Sound.of_keeps (h : machine.Sound cartridge) (hkeeps : machine.Keeps next)
    (hpc : (0 ≤ next.pc ∧ next.pc ≤ next.codeSize) ∨ next.pc = next.entry)
    (hscreen : next.screen.Colored) : next.Sound cartridge where
  codeSize_le := hkeeps.codeSize.symm ▸ h.codeSize_le
  booted := hkeeps.booted.trans h.booted
  loaded := by
    intro last hlast
    obtain ⟨hloaded, hentry⟩ := h.loaded last hlast
    exact ⟨hloaded.of_keeps hkeeps, hkeeps.entry.trans hentry⟩
  pc := hpc
  screen := hscreen

theorem pc_perform (machine : Machine) (op : Operation) (args : Bytes) :
    (machine.perform op args).1.pc = machine.pc ∨
      (0 ≤ (machine.perform op args).1.pc ∧
        (machine.perform op args).1.pc ≤ machine.codeSize) := by
  cases op with
  | jump =>
    right
    simp only [perform]
    split
    · simp only
      omega
    · simp only
      omega
  | halt =>
    right
    simp only [perform]
    omega
  | _ =>
    left
    simp [perform, plot, drawTiles]

theorem colored_perform (h : machine.screen.Colored) (op : Operation) (args : Bytes) :
    (machine.perform op args).1.screen.Colored := by
  cases op with
  | plot =>
    simp only [perform, plot]
    exact h.plot _ _ _
  | drawTiles =>
    simp only [perform, drawTiles]
    exact h.drawTiles _ _ _ _
  | jump =>
    simp only [perform]
    split
    · exact h
    · exact h
  | _ => simpa only [perform] using h

theorem Sound.tick (h : machine.Sound cartridge) (listing : Option Program) :
    (machine.tick listing).1.Sound cartridge := by
  have hkeeps := Keeps.tick listing machine
  rcases tick_cases listing machine with hsame | ⟨op, args, hdone, hfetch, hperformed⟩
  · rw [hsame]
    exact h
  · apply h.of_keeps hkeeps
    · have hstart := pc_lt_of_not_done hdone
      have hend := (fetch_eq_ok_iff.mp hfetch).room
      have hpc := pc_perform
        { machine with pc := machine.pc + op.size, ticks := machine.ticks + 1 } op args
      rw [← hperformed] at hpc
      rw [hkeeps.codeSize]
      dsimp only at hpc
      omega
    · rw [hperformed]
      apply colored_perform
      exact h.screen

theorem sound_boot (machine : Machine) {last : Cartridge} (hfits : last.code.length ≤ ramSize) :
    (machine.boot last).1.Sound (some last) := by
  have hloaded := (machine.boot_loaded hfits).2
  rw [boot_of_le machine hfits] at hloaded ⊢
  refine ⟨hfits, rfl, ?_, .inr rfl, Screen.colored_blank⟩
  rintro other ⟨⟩
  exact ⟨hloaded, rfl⟩

-- One request at a time.
theorem Sound.obey (h : machine.Sound cartridge) (request : Request) :
    (machine.obey request).Sound (request.accepted?.or cartridge) := by
  cases request with
  | boot last =>
    by_cases hfits : last.code.length ≤ ramSize
    · simp only [Request.accepted?, if_pos hfits, Option.some_or]
      exact sound_boot machine hfits
    · simp only [Request.accepted?, if_neg hfits, Option.none_or, Machine.obey,
        boot_of_lt machine (Nat.lt_of_not_le hfits)]
      exact h
  | reset => exact h.of_keeps ⟨rfl, rfl, rfl, rfl, rfl⟩ (.inr rfl) Screen.colored_blank
  | tick listing => exact h.tick listing
  | frame listing => exact frame_induction (fun next hnext => hnext.tick listing) h
  | plot x y color =>
    exact h.of_keeps ⟨rfl, rfl, rfl, rfl, rfl⟩ h.pc (h.screen.plot x y color)
  | drawTiles start x y =>
    exact h.of_keeps ⟨rfl, rfl, rfl, rfl, rfl⟩ h.pc (h.screen.drawTiles _ _ x y)

end Step

theorem Sound.after {cartridge : Option Cartridge} {machine : Machine} (h : machine.Sound cartridge)
    (requests : List Request) :
    (machine.after requests).Sound ((lastAccepted? requests).or cartridge) := by
  induction requests generalizing cartridge machine with
  | nil => exact h
  | cons request rest ih =>
    rw [lastAccepted?_cons, Option.or_assoc]
    exact ih (h.obey request)

-- Whatever is asked of a machine, it stays within its memories and its screen.
theorem always_in_bounds (requests : List Request) :
    let machine := unbooted.after requests
    machine.codeSize ≤ ramSize ∧
      machine.booted = (lastAccepted? requests).isSome ∧
      (∀ cartridge, lastAccepted? requests = some cartridge →
        machine.ram.toList =
            cartridge.code ++ List.replicate (ramSize - cartridge.code.length) 0 ∧
          machine.vram.toList =
            (cartridge.graphics ++ List.replicate vramSize 0).take vramSize ∧
          machine.codeSize = cartridge.code.length ∧
          machine.entry = cartridge.entry.toNat) ∧
      ((0 ≤ machine.pc ∧ machine.pc ≤ machine.codeSize) ∨ machine.pc = machine.entry) ∧
      (∀ color ∈ machine.screen, color ≤ 15) ∧
      (∀ listing, machine.tick? listing = some (machine.tick listing)) ∧
      ∀ start x y, machine.drawTiles? start x y = some (machine.drawTiles start x y) := by
  intro machine
  have hsound := sound_unbooted.after requests
  rw [Option.or_none] at hsound
  refine ⟨hsound.codeSize_le, hsound.booted, ?_, hsound.pc, hsound.screen,
    fun listing => tick?_eq listing hsound.codeSize_le, drawTiles?_eq machine⟩
  intro cartridge hcartridge
  obtain ⟨hloaded, hentry⟩ := hsound.loaded cartridge hcartridge
  have hfits : cartridge.code.length ≤ ramSize := hloaded.codeSize ▸ hsound.codeSize_le
  refine ⟨?_, ?_, hloaded.codeSize, hentry⟩
  · rw [hloaded.ram, toList_memory_of_le hfits]
  · rw [hloaded.vram, toList_memory]

-- An entry point behind the code is where the program counter starts.
example : (unbooted.after [.boot ⟨9, [0xFF], []⟩]).pc = 9 := rfl

end Machine

end TileConsole
