import TileConsole.Proofs.Cartridge
import TileConsole.Proofs.Machine.Loaded
import TileConsole.Proofs.Picture.Showing

namespace TileConsole.Machine

variable {cartridge : Cartridge} {machine : Machine}

theorem perform_drawTiles (machine : Machine) (a b : UInt16) :
    machine.perform .drawTiles
        (Bytes.littleEndian 2 a.toNat ++ Bytes.littleEndian 2 b.toNat) =
      (machine.drawTiles machine.tiles (Bytes.signed16 a.toNat) (Bytes.signed16 b.toNat), none) := by
  have htake : (Bytes.littleEndian 2 a.toNat ++ Bytes.littleEndian 2 b.toNat).take 2 =
      Bytes.littleEndian 2 a.toNat := List.take_left' (Bytes.length_littleEndian 2 _)
  have hrest : (Bytes.littleEndian 2 a.toNat ++ Bytes.littleEndian 2 b.toNat).drop 2 =
      Bytes.littleEndian 2 b.toNat := List.drop_left' (Bytes.length_littleEndian 2 _)
  have hx := Bytes.toNat_littleEndian_word (Nat.le_of_lt_succ a.toNat_lt)
  have hy := Bytes.toNat_littleEndian_word (Nat.le_of_lt_succ b.toNat_lt)
  unfold perform
  dsimp only
  rw [htake, hrest, hx, hy]

theorem Loaded.tick_drawTiles (h : machine.Loaded cartridge)
    (hfits : cartridge.code.length ≤ ramSize) {pc : Nat} (hpc : machine.pc = pc) {a b : UInt16}
    {rest : Bytes} (hdrop : cartridge.code.drop pc = Operation.code .drawTiles ::
      (Bytes.littleEndian 2 a.toNat ++ Bytes.littleEndian 2 b.toNat ++ rest))
    (listing : Option Program) :
    ∃ next, machine.tick listing = (next, .ok next.done) ∧
      next.screen = machine.screen.drawTiles machine.vram machine.tiles.toNat
        (Bytes.signed16 a.toNat) (Bytes.signed16 b.toNat) := by
  have htick := h.tick_eq hfits hpc hdrop (by rw [List.length_append]; rfl) listing
  dsimp only at htick
  rw [perform_drawTiles] at htick
  exact ⟨_, htick, rfl⟩

-- Pictures of whole tiles reach the screen through a cartridge. The tiles may
-- lie anywhere in its graphics, as long as they end in video memory.
theorem tiles_reach_screen {picture : IndexedPicture} (h : picture.Packable)
    (hwidth : 8 ∣ picture.frame.width) (hheight : 8 ∣ picture.frame.height) :
    ∃ blob, picture.tiles = .ok blob ∧
      ∀ (entry : UInt32) (code before after : Bytes), code.length ≤ ramSize →
        before.length + blob.length ≤ vramSize →
        (before ++ blob ++ after).length ≤ Cartridge.maxSection →
          let cartridge : Cartridge := ⟨entry, code, before ++ blob ++ after⟩
          ∃ data, cartridge.toBytes = .ok data ∧
            (∀ previous : Cartridge, previous.replace data = (cartridge, none)) ∧
            (∀ machine : Machine, (machine.boot cartridge).2 = none ∧
              (machine.boot cartridge).1.Loaded cartridge) ∧
            ∀ (machine : Machine) (listing : Option Program), machine.Loaded cartridge →
              (machine.tick listing).1.Loaded cartridge ∧
                ∀ (pc : Nat) (a b : UInt16) (rest : Bytes), machine.pc = pc →
                  machine.tiles.toNat = before.length →
                  code.drop pc = Operation.code .drawTiles ::
                    (Bytes.littleEndian 2 a.toNat ++ Bytes.littleEndian 2 b.toNat ++ rest) →
                    ∃ next, machine.tick listing = (next, .ok next.done) ∧
                      picture.LiesOver (Bytes.signed16 a.toNat) (Bytes.signed16 b.toNat)
                        machine.screen next.screen := by
  refine ⟨_, h.tiles_eq, ?_⟩
  intro entry code before after hcode hroom hgraphics cartridge
  have hsection : cartridge.code.length ≤ Cartridge.maxSection :=
    Nat.le_trans hcode (by decide)
  have hread := Cartridge.ofBytes_append hsection hgraphics []
  rw [List.append_nil] at hread
  refine ⟨_, Cartridge.toBytes_eq hsection hgraphics, ?_, ?_, ?_⟩
  · intro previous
    rw [Cartridge.replace, hread]
  · intro machine
    exact machine.boot_loaded hcode
  · intro machine listing hloaded
    refine ⟨hloaded.tick listing, ?_⟩
    intro pc a b rest hpc htiles hdrop
    obtain ⟨next, htick, hscreen⟩ := hloaded.tick_drawTiles hcode hpc hdrop listing
    have hholds := Screen.holds_memory after hroom
    refine ⟨next, htick, ?_⟩
    rw [hscreen, htiles, hloaded.vram]
    exact IndexedPicture.liesOver_drawTiles h hholds hwidth hheight machine.screen _ _

theorem tiles_reach_screen_over_the_edge :
    let picture : IndexedPicture :=
      ⟨⟨3, -2, 8, 8⟩, Screen.palette, Array.ofFn fun i : Fin 64 => UInt8.ofNat i.val⟩
    let code : Bytes := [Operation.code .drawTiles, 0xFF, 0xFF, 20, 0]
    ∃ blob next, picture.tiles = .ok blob ∧
      tick none { (unbooted.boot ⟨0, code, [7] ++ blob⟩).1 with tiles := 1 } =
        (next, .ok next.done) ∧
      next.screen.pixel 5 21 = 14 ∧ next.screen.pixel 7 21 = 0 := by
  intro picture code
  have hpackable : picture.Packable := ⟨by simp [picture, Frame.area], by decide, by decide⟩
  obtain ⟨blob, hblob, htrip⟩ := tiles_reach_screen hpackable ⟨1, rfl⟩ ⟨1, rfl⟩
  have hlength : blob.length = 36 := by
    rw [hpackable.tiles_eq] at hblob
    cases hblob
    simp [picture, IndexedPicture.length_blob]
  obtain ⟨data, -, -, hboot, htick⟩ := htrip 0 code [7] [] (by decide)
    (by rw [hlength]; decide) (by simp only [List.length_append, hlength]; decide)
  rw [List.append_nil] at hboot htick
  have hloaded := (hboot unbooted).2
  have hblank : (unbooted.boot ⟨0, code, [7] ++ blob⟩).1.screen = .blank := by
    rw [boot, if_neg (show ¬ramSize < code.length by decide)]
    rfl
  obtain ⟨-, hdraw⟩ := htick { (unbooted.boot ⟨0, code, [7] ++ blob⟩).1 with tiles := 1 } none
    ⟨hloaded.ram, hloaded.vram, hloaded.codeSize, hloaded.booted⟩
  obtain ⟨next, hnext, hshown⟩ := hdraw 0 0xFFFF 20 [] rfl rfl rfl
  refine ⟨blob, next, hblob, hnext, ?_, ?_⟩
  · rw [hshown, if_pos (by decide)]
    decide
  · rw [hshown, if_neg (by decide), hblank]
    exact Screen.pixel_blank 7 21

end TileConsole.Machine
