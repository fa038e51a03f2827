import TileConsole.Proofs.Machine.Drawing
import TileConsole.Proofs.Machine.Requests

namespace TileConsole.Machine

-- The machines that a number of ticks lead to, each with the answer of its tick.
def history (listing : Option Program) : Nat → Machine → List (Machine × Except MachineError Bool)
  | 0, _ => []
  | count + 1, machine => machine.tick listing :: history listing count (machine.tick listing).1

theorem boot_accepts_iff (machine : Machine) (cartridge : Cartridge) :
    (machine.boot cartridge).2 = none ↔ cartridge.code.length ≤ ramSize := by
  by_cases h : cartridge.code.length ≤ ramSize
  · simp [boot_of_le machine h, h]
  · simp [boot_of_lt machine (Nat.lt_of_not_le h), h]

theorem boot_rejected {machine : Machine} {cartridge : Cartridge}
    (h : (machine.boot cartridge).2 ≠ none) : (machine.boot cartridge).1 = machine := by
  have hlarge : ¬cartridge.code.length ≤ ramSize :=
    fun hfits => h ((boot_accepts_iff machine cartridge).mpr hfits)
  rw [boot_of_lt machine (Nat.lt_of_not_le hlarge)]

theorem boot_eq_boot (machine other : Machine) {cartridge : Cartridge}
    (h : cartridge.code.length ≤ ramSize) : machine.boot cartridge = other.boot cartridge := by
  rw [boot_of_le machine h, boot_of_le other h]

theorem reset_boot (machine : Machine) {cartridge : Cartridge}
    (h : cartridge.code.length ≤ ramSize) :
    (machine.boot cartridge).1.reset = (machine.boot cartridge).1 := by
  rw [boot_of_le machine h]
  rfl

-- Booting a cartridge forgets everything that ran before, and a reset everything
-- that ran since. Only a new cartridge makes a difference, if it is accepted.
theorem boot_and_reset_forget (cartridge : Cartridge) :
    (∀ machine : Machine, (machine.boot cartridge).2 = none ↔ cartridge.code.length ≤ ramSize) ∧
    (∀ machine : Machine, (machine.boot cartridge).2 ≠ none →
      (machine.boot cartridge).1 = machine) ∧
    ∀ machine : Machine, (machine.boot cartridge).2 = none →
      let fresh := (machine.boot cartridge).1
      (∀ other : Machine, (other.boot cartridge).1 = fresh) ∧
      ∀ requests : List Request, (∀ request ∈ requests, request.accepted? = none) →
        (fresh.after requests).reset = fresh ∧
          ∀ listing count,
            history listing count (fresh.after requests).reset = history listing count fresh := by
  refine ⟨fun machine => boot_accepts_iff machine cartridge, fun machine => boot_rejected, ?_⟩
  intro machine haccepted fresh
  have hfits := (boot_accepts_iff machine cartridge).mp haccepted
  refine ⟨fun other => congrArg Prod.fst (boot_eq_boot other machine hfits), ?_⟩
  intro requests hrequests
  have hreset : (fresh.after requests).reset = fresh := by
    rw [(Keeps.after fresh hrequests).reset_eq]
    exact reset_boot machine hfits
  refine ⟨hreset, ?_⟩
  intro listing count
  rw [hreset]

-- A cartridge of one byte too many, and a small one that is drawn over while it
-- runs.
theorem boot_and_reset_forget_drawn_over :
    let large : Cartridge := ⟨0, List.replicate (ramSize + 1) 0, []⟩
    let small : Cartridge := ⟨0, [0x01, 0x05, 0xFF], []⟩
    let fresh := (unbooted.boot small).1
    let requests : List Request :=
      [.frame none, .boot large, .drawTiles 0 1 1, .plot 2 3 0x1C]
    (unbooted.boot large).2 ≠ none ∧ (unbooted.boot large).1 = unbooted ∧
      (unbooted.boot small).2 = none ∧ (∀ request ∈ requests, request.accepted? = none) ∧
      (fresh.after requests).screen.pixel 2 3 = 0x0C ∧ fresh.screen.pixel 2 3 = 0 ∧
      (fresh.after requests).reset = fresh ∧
      ∀ listing count,
        history listing count (fresh.after requests).reset = history listing count fresh := by
  intro large small fresh requests
  obtain ⟨hlarge, hrejected, -⟩ := boot_and_reset_forget large
  obtain ⟨hsmall, -, hforgotten⟩ := boot_and_reset_forget small
  have htoo : ¬large.code.length ≤ ramSize := by simp [large]
  have hrefused : (unbooted.boot large).2 ≠ none := fun h => htoo ((hlarge unbooted).mp h)
  have haccepted : (unbooted.boot small).2 = none := (hsmall unbooted).mpr (by decide)
  have hrequests : ∀ request ∈ requests, request.accepted? = none := by
    simp [requests, Request.accepted?, htoo]
  have hblank : fresh.screen = .blank := by
    simp only [fresh]
    rw [boot_of_le unbooted (by decide)]
  have hplot : ∀ machine : Machine, (machine.obey (.plot 2 3 0x1C)).screen.pixel 2 3 = 0x0C := by
    intro machine
    rw [obey, plot, Screen.pixel_plot, if_pos (by decide)]
    rfl
  obtain ⟨hreset, hhistory⟩ := (hforgotten unbooted haccepted).2 requests hrequests
  exact ⟨hrefused, hrejected unbooted hrefused, haccepted, hrequests, hplot _,
    hblank ▸ Screen.pixel_blank 2 3, hreset, hhistory⟩

end TileConsole.Machine
