import TileConsole.Proofs.Machine.Fetch
import TileConsole.Proofs.Picture.Packing

namespace TileConsole

namespace Screen

-- Video memory has the given bytes at an offset.
def Holds (vram : VideoMemory) (start : Nat) (bytes : Bytes) : Prop :=
  ∀ i < bytes.length, vram[start + i]? = bytes[i]?

namespace Holds

variable {vram : VideoMemory} {start i : Nat} {bytes rest : Bytes} {b : UInt8}

theorem append_left (h : Holds vram start (bytes ++ rest)) : Holds vram start bytes := by
  intro i hi
  rw [h i (by rw [List.length_append]; omega), List.getElem?_append_left hi]

theorem append_right (h : Holds vram start (bytes ++ rest)) :
    Holds vram (start + bytes.length) rest := by
  intro i hi
  rw [Nat.add_assoc, h (bytes.length + i) (by rw [List.length_append]; omega),
    List.getElem?_append_right (Nat.le_add_right _ _), Nat.add_sub_cancel_left]

theorem getElem?_eq (h : Holds vram start bytes) (hi : bytes[i]? = some b) :
    vram[start + i]? = some b := by
  rw [h i (List.getElem?_eq_some_iff.mp hi).1, hi]

theorem lt_of_getElem? (h : Holds vram start bytes) (hi : bytes[i]? = some b) :
    start + i < vramSize :=
  (Vector.getElem?_eq_some_iff.mp (h.getElem?_eq hi)).1

theorem getD_eq (h : Holds vram start bytes) (hi : bytes[i]? = some b) :
    vram.getD (start + i) 0 = b := by
  rw [Vector.getD, Array.getD_eq_getD_getElem?, Vector.getElem?_toArray, h.getElem?_eq hi]
  rfl

theorem wordAt_eq {n : Nat} (h : Holds vram start (Bytes.littleEndian 2 n)) (hn : n ≤ 0xFFFF) :
    wordAt vram start = n := by
  have hlow := h.getD_eq (i := 0) rfl
  have hhigh := h.getD_eq (i := 1) rfl
  rw [Nat.add_zero] at hlow
  rw [wordAt, hlow, hhigh]
  exact Bytes.toNat_littleEndian_word hn

end Holds

theorem holds_memory {before bytes : Bytes} (after : Bytes)
    (h : before.length + bytes.length ≤ vramSize) :
    Holds (Machine.memory vramSize (before ++ bytes ++ after)) before.length bytes := by
  intro i hi
  rw [Machine.getElem?_memory _ _ (by omega), List.getD_eq_getElem?_getD, List.append_assoc,
    List.getElem?_append_right (Nat.le_add_right _ _), Nat.add_sub_cancel_left,
    List.getElem?_append_left hi, List.getElem?_eq_getElem hi]
  rfl

theorem getD_memory (before bytes : Bytes) {place : Nat} (h : before.length + place < vramSize) :
    (Machine.memory vramSize (before ++ bytes)).getD (before.length + place) 0 =
      bytes.getD place 0 := by
  rw [Vector.getD, Array.getD_eq_getD_getElem?, Vector.getElem?_toArray,
    Machine.getElem?_memory _ _ h, Option.getD_some, List.getD_eq_getElem?_getD,
    List.getElem?_append_right (Nat.le_add_right _ _), Nat.add_sub_cancel_left,
    List.getD_eq_getElem?_getD]

end Screen

namespace IndexedPicture

open Screen (Holds Inside half pairAt tileCount)

theorem le_tileCount (pixels : Nat) : pixels ≤ 8 * tileCount pixels := by
  unfold tileCount
  omega

-- The bytes that are left out of the tiles before a column and a row. Drawing
-- counts them all the same.
def gap (width height column row : Nat) : Nat :=
  row / 8 * (tileCount width * 32 - width / 2 * 8) +
    (column / 8 * (32 - min 8 (height - row / 8 * 8) * 4) +
      row % 8 * (4 - min 4 ((width - column / 8 * 8) / 2)))

theorem pairAt_eq_packedAt_add_gap (width height column row : Nat) :
    pairAt (tileCount width) column row =
      packedAt width height column row + gap width height column row := by
  have hband : row / 8 * (width / 2 * 8) + row / 8 * (tileCount width * 32 - width / 2 * 8) =
      row / 8 * tileCount width * 32 := by
    rw [← Nat.mul_add, Nat.add_sub_cancel' (by unfold tileCount; omega), Nat.mul_assoc]
  have htile : column / 8 * (min 8 (height - row / 8 * 8) * 4) +
      column / 8 * (32 - min 8 (height - row / 8 * 8) * 4) = column / 8 * 32 := by
    rw [← Nat.mul_add, Nat.add_sub_cancel' (by omega)]
  have hline : row % 8 * min 4 ((width - column / 8 * 8) / 2) +
      row % 8 * (4 - min 4 ((width - column / 8 * 8) / 2)) = row % 8 * 4 := by
    rw [← Nat.mul_add, Nat.add_sub_cancel' (by omega)]
  rw [pairAt, packedAt, gap]
  omega

-- Nothing is left out before a column and a row: the rows of tiles above, the
-- tiles to the left and the lines above in the same tile are whole.
def Aligned (width height column row : Nat) : Prop :=
  (row < 8 ∨ width % 8 = 0) ∧ (column < 8 ∨ row / 8 * 8 + 8 ≤ height) ∧
    (row % 8 = 0 ∨ column / 8 * 8 + 8 ≤ width)

instance (width height column row : Nat) : Decidable (Aligned width height column row) :=
  inferInstanceAs (Decidable (_ ∧ _ ∧ _))

theorem gap_eq_zero_iff {width height column row : Nat} (heven : width % 2 = 0) :
    gap width height column row = 0 ↔ Aligned width height column row := by
  have hband : tileCount width * 32 - width / 2 * 8 = 0 ↔ width % 8 = 0 := by
    unfold tileCount
    omega
  have htile : 32 - min 8 (height - row / 8 * 8) * 4 = 0 ↔ row / 8 * 8 + 8 ≤ height := by omega
  have hline : 4 - min 4 ((width - column / 8 * 8) / 2) = 0 ↔ column / 8 * 8 + 8 ≤ width := by
    omega
  have hrow : row / 8 = 0 ↔ row < 8 := by omega
  have hcolumn : column / 8 = 0 ↔ column < 8 := by omega
  rw [gap, Aligned, Nat.add_eq_zero_iff, Nat.add_eq_zero_iff, Nat.mul_eq_zero, Nat.mul_eq_zero,
    Nat.mul_eq_zero, hband, htile, hline, hrow, hcolumn]

-- The last pixel decides for the whole picture.
theorem forall_aligned_iff {width height : Nat} (heven : width % 2 = 0) (hwidth : 0 < width)
    (hheight : 0 < height) :
    (∀ column < width, ∀ row < height, Aligned width height column row) ↔
      (8 ∣ width ∧ 8 ∣ height) ∨ width = 8 ∨ (width < 8 ∧ height = 1) := by
  constructor
  · intro h
    have hlast := h (width - 1) (by omega) (height - 1) (by omega)
    unfold Aligned at hlast
    omega
  · intro h column hcolumn row hrow
    unfold Aligned
    omega

section Drawn

variable {picture : IndexedPicture} {vram : VideoMemory} {start : Nat}

-- The place of a pixel in video memory, where drawing looks for it.
theorem pixel_drawTiles_blob (h : picture.Packable) (hholds : Holds vram start picture.blob)
    (screen : Screen) (x y p q : Int) :
    let address := start + 4 + pairAt (tileCount picture.frame.width) (p - x).toNat (q - y).toNat
    (screen.drawTiles vram start x y).pixel p q =
      if Inside p q ∧ x ≤ p ∧ p < x + 8 * tileCount picture.frame.width ∧ y ≤ q ∧
          q < y + 8 * tileCount picture.frame.height ∧ address < vramSize then
        half (vram.getD address 0) (p - x).toNat
      else screen.pixel p q := by
  have hheader := hholds.append_left
  have hwidth := hheader.append_left.wordAt_eq h.width_le
  have hheight := hheader.append_right
  have hlast := hheight.lt_of_getElem? (i := 1) rfl
  rw [Bytes.length_littleEndian] at hheight hlast
  have hdrawn := Screen.pixel_drawTiles screen vram (show start + 4 ≤ vramSize by omega) x y p q
  rw [hwidth, hheight.wordAt_eq h.height_le] at hdrawn
  exact hdrawn

-- An aligned pixel is drawn from the byte that holds it.
theorem pixel_drawTiles_of_aligned (h : picture.Packable) (hholds : Holds vram start picture.blob)
    (heven : picture.frame.width % 2 = 0) {i j : Nat} (hi : i < picture.frame.width)
    (hj : j < picture.frame.height)
    (haligned : Aligned picture.frame.width picture.frame.height i j) (screen : Screen) {x y : Int}
    (hinside : Inside (x + i) (y + j)) :
    (screen.drawTiles vram start x y).pixel (x + i) (y + j) = picture.index i j &&& 0x0F := by
  have hplace : pairAt (tileCount picture.frame.width) i j =
      packedAt picture.frame.width picture.frame.height i j := by
    rw [pairAt_eq_packedAt_add_gap _ picture.frame.height, (gap_eq_zero_iff heven).mpr haligned,
      Nat.add_zero]
  have hbyte := picture.getElem?_packTiles (show i / 2 < picture.frame.width / 2 by omega) hj
  rw [← getElem?_blob] at hbyte
  have hroom := hholds.lt_of_getElem? hbyte
  have hget := hholds.getD_eq hbyte
  rw [← Nat.add_assoc] at hroom hget
  have hacross := le_tileCount picture.frame.width
  have hdown := le_tileCount picture.frame.height
  have hcolumn : (x + i - x).toNat = i := by omega
  have hrow : (y + j - y).toNat = j := by omega
  have hdrawn := pixel_drawTiles_blob h hholds screen x y (x + i) (y + j)
  rw [hcolumn, hrow, hplace] at hdrawn
  rw [hdrawn, if_pos ⟨hinside, by omega, by omega, by omega, by omega, hroom⟩, hget, half_pair]

-- A picture lies over a screen with its top left corner at a position. The rest
-- of the screen is as before.
def LiesOver (picture : IndexedPicture) (x y : Int) (before after : Screen) : Prop :=
  ∀ p q, after.pixel p q =
    if Inside p q ∧ x ≤ p ∧ p < x + picture.frame.width ∧ y ≤ q ∧
        q < y + picture.frame.height then
      picture.index (p - x).toNat (q - y).toNat &&& 0x0F
    else before.pixel p q

theorem liesOver_drawTiles (h : picture.Packable) (hholds : Holds vram start picture.blob)
    (hwidth : 8 ∣ picture.frame.width) (hheight : 8 ∣ picture.frame.height) (screen : Screen)
    (x y : Int) : picture.LiesOver x y screen (screen.drawTiles vram start x y) := by
  intro p q
  split
  case isTrue hshown =>
    obtain ⟨hinside, hleft, hright, htop, hbottom⟩ := hshown
    have hp : x + ((p - x).toNat : Int) = p := by omega
    have hq : y + ((q - y).toNat : Int) = q := by omega
    have haligned : Aligned picture.frame.width picture.frame.height (p - x).toNat
        (q - y).toNat := by
      unfold Aligned
      omega
    have hpixel := pixel_drawTiles_of_aligned h hholds (by omega) (by omega) (by omega)
      haligned screen (by rw [hp, hq]; exact hinside)
    rw [hp, hq] at hpixel
    exact hpixel
  case isFalse hout =>
    rw [pixel_drawTiles_blob h hholds, if_neg]
    rintro ⟨hinside, hleft, hright, htop, hbottom, -⟩
    apply hout
    unfold tileCount at hright hbottom
    exact ⟨hinside, hleft, by omega, htop, by omega⟩

end Drawn

end IndexedPicture

end TileConsole
