import TileConsole.Proofs.Picture.Showing

namespace TileConsole.IndexedPicture

open Screen (Holds Inside half pairAt tileCount)

-- A pixel of every picture of a size is shown when its tiles are drawn from an
-- offset of video memory, wherever that pixel comes to lie on the screen.
def Shows (width height : Nat) (start : UInt16) (i j : Nat) : Prop :=
  ∀ picture : IndexedPicture, picture.Packable → picture.frame.width = width →
    picture.frame.height = height →
      ∃ blob, picture.tiles = .ok blob ∧
        ∀ (machine : Machine) (x y : Int), Holds machine.vram start.toNat blob →
          Inside (x + i) (y + j) →
            (machine.drawTiles start x y).screen.pixel (x + i) (y + j) =
              picture.index i j &&& 0x0F

theorem shows_of_aligned {width height i j : Nat} (start : UInt16) (heven : width % 2 = 0)
    (hi : i < width) (hj : j < height) (h : Aligned width height i j) :
    Shows width height start i j := by
  rintro picture hpackable rfl rfl
  refine ⟨_, hpackable.tiles_eq, fun machine x y hholds hinside => ?_⟩
  exact pixel_drawTiles_of_aligned hpackable hholds heven hi hj h machine.screen hinside

-- A picture with one pixel that is not zero.
def dot (width height i j : Nat) : IndexedPicture where
  frame := ⟨0, 0, width, height⟩
  palette := Screen.palette
  pixels := Array.ofFn fun place : Fin (width * height) => if place = j * width + i then 1 else 0

section Dot

variable {width height i j : Nat}

theorem packable_dot (hwidth : width ≤ 0xFFFF) (hheight : height ≤ 0xFFFF) :
    (dot width height i j).Packable where
  complete := by simp [dot, Frame.area]
  width_le := hwidth
  height_le := hheight

theorem index_dot (hi : i < width) {column row : Nat} (hcolumn : column < width)
    (hrow : row < height) :
    (dot width height i j).index column row = if row = j ∧ column = i then 1 else 0 := by
  have hplace : row * width + column < width * height := by
    have hrows := Nat.mul_le_mul_right width (Nat.succ_le_of_lt hrow)
    rw [Nat.succ_mul] at hrows
    rw [Nat.mul_comm width]
    omega
  have hsame : row * width + column = j * width + i ↔ row = j ∧ column = i := by
    constructor
    · intro h
      have hmod := congrArg (· % width) h
      simp only [Nat.mul_add_mod_self_right, Nat.mod_eq_of_lt hcolumn, Nat.mod_eq_of_lt hi] at hmod
      rw [hmod] at h
      exact ⟨Nat.eq_of_mul_eq_mul_right (Nat.zero_lt_of_lt hi) (Nat.add_right_cancel h), hmod⟩
    · intro h
      rw [h.1, h.2]
  simp [index, dot, Array.getD, hplace, hsame]

-- The dot is in one packed byte only. The others are zero.
theorem eq_packedAt_of_half_dot (hi : i < width) {place : Nat}
    (h : half ((dot width height i j).packTiles.getD place 0) i ≠ 0) :
    place = packedAt width height i j := by
  have hlength : (dot width height i j).packTiles.length = width / 2 * height :=
    (dot width height i j).length_packTiles
  rw [List.getD_eq_getElem?_getD] at h
  by_cases hplace : place < width / 2 * height
  · obtain ⟨column, row, hcolumn, hrow, rfl⟩ := exists_packedAt_eq hplace
    have hbyte : (dot width height i j).packTiles[packedAt width height column row]? = _ :=
      (dot width height i j).getElem?_packTiles hcolumn hrow
    have hhalf := (dot width height i j).half_pair (2 * (column / 2) + i % 2) row
    have hsame : 2 * ((2 * (column / 2) + i % 2) / 2) = 2 * (column / 2) := by omega
    have hparity : (2 * (column / 2) + i % 2) % 2 = i % 2 := by omega
    rw [hsame, half, hparity, ← half, index_dot hi (by omega) hrow] at hhalf
    rw [hbyte, Option.getD_some, hhalf] at h
    have hdot : row = j ∧ 2 * (column / 2) + i % 2 = i := by
      apply Decidable.byContradiction
      intro hother
      rw [if_neg hother] at h
      exact h rfl
    have htile : column / 8 = i / 8 := by omega
    have hpair : column % 8 / 2 = i % 8 / 2 := by omega
    rw [packedAt, htile, hpair, hdot.1, packedAt]
  · rw [List.getElem?_eq_none (by omega)] at h
    unfold half at h
    split at h <;> exact absurd rfl h

-- The tiles of the dot, with nothing else in video memory.
def dotMemory (start width height i j : Nat) : VideoMemory :=
  Machine.memory vramSize (List.replicate start 0 ++ (dot width height i j).blob)

theorem holds_dotMemory {start : Nat} (hfits : start + (4 + width / 2 * height) ≤ vramSize) :
    Holds (dotMemory start width height i j) start (dot width height i j).blob := by
  have hlength := (dot width height i j).length_blob
  have hholds := @Screen.holds_memory (List.replicate start 0) (dot width height i j).blob []
    (by rw [List.length_replicate, hlength]; exact hfits)
  rw [List.append_nil, List.length_replicate] at hholds
  exact hholds

theorem getD_dotMemory {start place : Nat} (h : start + 4 + place < vramSize) :
    (dotMemory start width height i j).getD (start + 4 + place) 0 =
      (dot width height i j).packTiles.getD place 0 := by
  have hget := @Screen.getD_memory (List.replicate start 0) (dot width height i j).blob (4 + place)
    (by rw [List.length_replicate]; omega)
  rw [List.length_replicate, ← Nat.add_assoc, List.getD_eq_getElem?_getD, getElem?_blob,
    ← List.getD_eq_getElem?_getD] at hget
  exact hget

theorem aligned_of_shows {start : UInt16} (heven : width % 2 = 0) (hi : i < width)
    (hj : j < height) (hwidth : width ≤ 0xFFFF)
    (hfits : start.toNat + (4 + width / 2 * height) ≤ vramSize)
    (h : Shows width height start i j) : Aligned width height i j := by
  have hheight : height ≤ width / 2 * height := Nat.le_mul_of_pos_left height (by omega)
  have hpackable : (dot width height i j).Packable :=
    packable_dot hwidth (by unfold vramSize at hfits; omega)
  obtain ⟨blob, hblob, hshown⟩ := h (dot width height i j) hpackable rfl rfl
  rw [hpackable.tiles_eq] at hblob
  cases hblob
  have hholds := @holds_dotMemory width height i j start.toNat hfits
  -- the dot is put in the corner of an empty screen
  have hpixel := hshown { Machine.unbooted with vram := dotMemory start.toNat width height i j }
    (-i) (-j) hholds (by simp only [Inside, screenWidth, screenHeight]; omega)
  have hdrawn := pixel_drawTiles_blob hpackable hholds .blank (-i) (-j) (-i + i) (-j + j)
  have hcolumn : (-(i : Int) + i - -i).toNat = i := by omega
  have hrow : (-(j : Int) + j - -j).toNat = j := by omega
  rw [hcolumn, hrow] at hdrawn
  have hdot : (dot width height i j).index i j = 1 := by
    rw [index_dot hi hi hj]
    exact if_pos ⟨rfl, rfl⟩
  have hone := hdrawn.symm.trans hpixel
  rw [hdot] at hone
  split at hone
  case isTrue hseen =>
    rw [getD_dotMemory hseen.2.2.2.2.2] at hone
    have hplace := eq_packedAt_of_half_dot hi (by rw [hone]; decide)
    have hgap := pairAt_eq_packedAt_add_gap width height i j
    apply (gap_eq_zero_iff heven).mp
    change pairAt (tileCount width) i j = _ at hplace
    omega
  case isFalse =>
    rw [Screen.pixel_blank] at hone
    exact absurd hone (by decide)

end Dot

-- Which pixels of a picture with an even width are shown, and in which sizes all
-- of them are. Past the edges the packing leaves pairs and rows out, and drawing
-- expects them.
theorem shows_iff {width height : Nat} (start : UInt16) (heven : width % 2 = 0) (hwidth : 0 < width)
    (hheight : 0 < height) (hsize : width ≤ 0xFFFF)
    (hfits : start.toNat + (4 + width / 2 * height) ≤ vramSize) :
    (∀ i < width, ∀ j < height, Shows width height start i j ↔ Aligned width height i j) ∧
      ((∀ i < width, ∀ j < height, Shows width height start i j) ↔
        (8 ∣ width ∧ 8 ∣ height) ∨ width = 8 ∨ (width < 8 ∧ height = 1)) := by
  have hpixel : ∀ i < width, ∀ j < height,
      Shows width height start i j ↔ Aligned width height i j := by
    intro i hi j hj
    exact ⟨aligned_of_shows heven hi hj hsize hfits, shows_of_aligned start heven hi hj⟩
  refine ⟨hpixel, ?_⟩
  rw [← forall_aligned_iff heven hwidth hheight]
  constructor
  · intro h i hi j hj
    exact (hpixel i hi j hj).mp (h i hi j hj)
  · intro h i hi j hj
    exact (hpixel i hi j hj).mpr (h i hi j hj)

theorem shows_iff_two_by_two : Shows 2 2 0 0 0 ∧ ¬Shows 2 2 0 0 1 := by
  have h := (@shows_iff 2 2 0 rfl (by decide) (by decide) (by decide) (by decide)).1 0 (by decide)
  exact ⟨(h 0 (by decide)).mpr (by decide), fun hshows => absurd ((h 1 (by decide)).mp hshows)
    (by decide)⟩

-- Four equal pixels lose their second row. It is looked for behind the tiles.
theorem square_misdrawn :
    let square : IndexedPicture := ⟨⟨0, 0, 2, 2⟩, Screen.palette, #[1, 1, 1, 1]⟩
    let blob : Bytes := [2, 0, 2, 0, 0x11, 0x11]
    let machine : Machine := { Machine.unbooted with vram := Machine.memory vramSize blob }
    square.tiles = .ok blob ∧ (machine.drawTiles 0 0 0).screen.pixel 0 1 = 0 ∧
      square.index 0 1 &&& 0x0F = 1 := by
  intro square blob machine
  have hpackable : square.Packable := ⟨by decide, by decide, by decide⟩
  have hblob : square.blob = blob := by decide +kernel
  have hholds : Holds machine.vram 0 square.blob := by
    rw [hblob]
    exact @Screen.holds_memory [] blob [] (by decide)
  have hdrawn := pixel_drawTiles_blob hpackable hholds .blank 0 0 0 1
  have hbyte : machine.vram.getD 8 0 = 0 := @Screen.getD_memory [] blob 8 (by decide)
  have hplace : pairAt (tileCount square.frame.width) (0 - 0 : Int).toNat (1 - 0 : Int).toNat = 4 :=
    by decide
  rw [hplace] at hdrawn
  dsimp only at hdrawn
  rw [hbyte, if_pos (by decide)] at hdrawn
  exact ⟨hpackable.tiles_eq.trans (congrArg Except.ok hblob), hdrawn, by decide⟩

end TileConsole.IndexedPicture
