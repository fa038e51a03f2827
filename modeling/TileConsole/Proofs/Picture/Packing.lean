import Mathlib.Algebra.BigOperators.Group.List.Basic
import TileConsole.Picture.Tiles
import TileConsole.Proofs.Machine.Drawing
import TileConsole.Proofs.Numeral

namespace TileConsole

section Blocks

variable {α : Type} {block : Nat → List α}

-- An entry of a row of blocks. Only the blocks in front of its own need to have
-- the same length.
theorem getElem?_flatMap_range {count k length i : Nat} {a : α} (hk : k < count)
    (hlength : ∀ j < k, (block j).length = length) (h : (block k)[i]? = some a) :
    ((List.range count).flatMap block)[k * length + i]? = some a := by
  induction k generalizing block count with
  | zero =>
    obtain ⟨count, rfl⟩ := Nat.exists_eq_add_one_of_ne_zero (Nat.ne_zero_of_lt hk)
    rw [List.range_succ_eq_map, List.flatMap_cons, Nat.zero_mul, Nat.zero_add,
      List.getElem?_append_left (List.getElem?_eq_some_iff.mp h).1, h]
  | succ k ih =>
    obtain ⟨count, rfl⟩ := Nat.exists_eq_add_one_of_ne_zero (Nat.ne_zero_of_lt hk)
    have hfirst := hlength 0 (Nat.succ_pos k)
    have hrest := @ih (fun j => block (j + 1)) count (Nat.lt_of_succ_lt_succ hk)
      (fun j hj => hlength (j + 1) (Nat.succ_lt_succ hj)) h
    have hindex : (k + 1) * length + i = length + (k * length + i) := by
      rw [Nat.succ_mul]
      omega
    rw [List.range_succ_eq_map, List.flatMap_cons, List.flatMap_map, hindex,
      List.getElem?_append_right (by omega), hfirst, Nat.add_sub_cancel_left]
    exact hrest

-- Leaving out the blocks past a limit is the same as stopping there.
theorem flatMap_range_of_lt (block : Nat → List α) (count limit : Nat) :
    ((List.range count).flatMap fun k => if k < limit then block k else []) =
      (List.range (min count limit)).flatMap block := by
  induction count with
  | zero => simp
  | succ count ih =>
    rw [List.range_succ, List.flatMap_append, ih]
    by_cases h : count < limit
    · rw [Nat.min_eq_left (Nat.le_of_lt h), Nat.min_eq_left h, List.range_succ,
        List.flatMap_append]
      simp [h]
    · rw [Nat.min_eq_right (Nat.le_of_not_lt h), Nat.min_eq_right (by omega)]
      simp [h]

-- Blocks that share out `total` in steps of `size`.
theorem length_flatMap_range {scale size total : Nat}
    (h : ∀ k, (block k).length = scale * min size (total - k * size)) (count : Nat) :
    ((List.range count).flatMap block).length = scale * min (count * size) total := by
  induction count with
  | zero => simp
  | succ count ih =>
    rw [List.range_succ, List.flatMap_append, List.length_append, ih, List.flatMap_singleton, h,
      ← Nat.mul_add, Nat.succ_mul]
    congr 1
    omega

-- Which of these blocks holds a place, and where in it.
theorem block_of_lt {scale size total place : Nat} (hsize : 0 < size)
    (h : place < scale * total) :
    place / (scale * size) * size < total ∧
      place % (scale * size) < scale * min size (total - place / (scale * size) * size) := by
  have hscale : 0 < scale := Nat.pos_of_lt_mul_right h
  have hplace := Nat.div_add_mod place (scale * size)
  have hmod := Nat.mod_lt place (Nat.mul_pos hscale hsize)
  have hbefore : scale * size * (place / (scale * size)) =
      scale * (place / (scale * size) * size) := by
    rw [Nat.mul_assoc, Nat.mul_comm size]
  have hinside : place / (scale * size) * size < total := by
    apply Nat.lt_of_mul_lt_mul_left
    exact Nat.lt_of_le_of_lt (by omega) h
  refine ⟨hinside, ?_⟩
  rw [← Nat.mul_min_mul_left, Nat.lt_min, Nat.mul_sub]
  omega

end Blocks

namespace IndexedPicture

open Screen (half tileCount)

variable (picture : IndexedPicture)

-- The byte of two neighbouring pixels.
def pair (column row : Nat) : UInt8 :=
  ((picture.index column row &&& 0x0F) <<< 4) ||| (picture.index (column + 1) row &&& 0x0F)

theorem half_pair (column row : Nat) :
    half (picture.pair (2 * (column / 2)) row) column = picture.index column row &&& 0x0F := by
  have hhigh := (picture.index (2 * (column / 2)) row).toNat_lt
  apply UInt8.toNat_inj.mp
  rw [half]
  split
  case isTrue heven =>
    have hcolumn : 2 * (column / 2) = column := by omega
    rw [Bytes.toNat_high, pair, Bytes.toNat_packed, Bytes.toNat_low, hcolumn]
    omega
  case isFalse hodd =>
    have hcolumn : 2 * (column / 2) + 1 = column := by omega
    rw [Bytes.toNat_low, pair, Bytes.toNat_packed, Bytes.toNat_low, hcolumn]
    omega

section Shape

variable (left top row : Nat)

theorem packRow_eq :
    picture.packRow left row =
      (List.range (min 4 ((picture.frame.width - left) / 2))).map fun k =>
        picture.pair (left + 2 * k) row := by
  have hpair : ∀ k, (if left + 2 * k + 1 < picture.frame.width then
      some (picture.pair (left + 2 * k) row) else none).toList =
      if k < (picture.frame.width - left) / 2 then [picture.pair (left + 2 * k) row] else [] := by
    intro k
    have hinside : left + 2 * k + 1 < picture.frame.width ↔
        k < (picture.frame.width - left) / 2 := by omega
    simp only [hinside]
    split <;> rfl
  rw [packRow, List.filterMap_eq_flatMap_toList, List.map_eq_flatMap, ← flatMap_range_of_lt]
  exact congrArg (fun block => (List.range 4).flatMap block) (funext hpair)

theorem length_packRow :
    (picture.packRow left row).length = min 4 ((picture.frame.width - left) / 2) := by
  rw [packRow_eq, List.length_map, List.length_range]

theorem packTile_eq :
    picture.packTile left top =
      (List.range (min 8 (picture.frame.height - top))).flatMap fun line =>
        picture.packRow left (top + line) := by
  have hinside : ∀ line, top + line < picture.frame.height ↔
      line < picture.frame.height - top := by omega
  rw [packTile, ← flatMap_range_of_lt]
  simp only [hinside, tileSide]

theorem length_packTile :
    (picture.packTile left top).length =
      min 8 (picture.frame.height - top) * min 4 ((picture.frame.width - left) / 2) := by
  rw [packTile_eq, List.length_flatMap]
  simp [length_packRow]

end Shape

-- The tiles of one row of tiles.
def band (n : Nat) : Bytes :=
  (List.range (tileCount picture.frame.width)).flatMap fun k => picture.packTile (k * 8) (n * 8)

theorem packTiles_eq :
    picture.packTiles = (List.range (tileCount picture.frame.height)).flatMap picture.band := by
  simp only [packTiles, tileCorners, List.flatMap_map]
  rfl

theorem length_band (n : Nat) :
    (picture.band n).length =
      picture.frame.width / 2 * min 8 (picture.frame.height - n * 8) := by
  have htile : ∀ k, (picture.packTile (k * 8) (n * 8)).length =
      min 8 (picture.frame.height - n * 8) * min 4 (picture.frame.width / 2 - k * 4) := by
    intro k
    have hhalf : (picture.frame.width - k * 8) / 2 = picture.frame.width / 2 - k * 4 := by omega
    rw [length_packTile, hhalf]
  have hcount : min (tileCount picture.frame.width * 4) (picture.frame.width / 2) =
      picture.frame.width / 2 := by
    unfold tileCount
    omega
  rw [band, length_flatMap_range htile, hcount, Nat.mul_comm]

-- Each pair of pixels is packed once.
theorem length_packTiles :
    picture.packTiles.length = picture.frame.width / 2 * picture.frame.height := by
  have hcount : min (tileCount picture.frame.height * 8) picture.frame.height =
      picture.frame.height := by
    unfold tileCount
    omega
  rw [packTiles_eq, length_flatMap_range picture.length_band, hcount]

-- The number of the packed byte that holds a column and a row of a picture.
-- Before it come the rows of tiles above, the tiles to the left, and the lines
-- above in its own tile, each without what lies past the edges.
def packedAt (width height column row : Nat) : Nat :=
  row / 8 * (width / 2 * 8) + (column / 8 * (min 8 (height - row / 8 * 8) * 4) +
    (row % 8 * min 4 ((width - column / 8 * 8) / 2) + column % 8 / 2))

theorem getElem?_packTiles {column row : Nat} (hcolumn : column / 2 < picture.frame.width / 2)
    (hrow : row < picture.frame.height) :
    picture.packTiles[packedAt picture.frame.width picture.frame.height column row]? =
      some (picture.pair (2 * (column / 2)) row) := by
  have hline : (picture.packRow (column / 8 * 8) (row / 8 * 8 + row % 8))[column % 8 / 2]? =
      some (picture.pair (2 * (column / 2)) row) := by
    have hleft : column / 8 * 8 + 2 * (column % 8 / 2) = 2 * (column / 2) := by omega
    rw [packRow_eq, List.getElem?_map, List.getElem?_range (by omega), Option.map_some, hleft,
      Nat.div_add_mod']
  have htile : (picture.packTile (column / 8 * 8) (row / 8 * 8))[
      row % 8 * min 4 ((picture.frame.width - column / 8 * 8) / 2) + column % 8 / 2]? =
      some (picture.pair (2 * (column / 2)) row) := by
    rw [packTile_eq]
    exact getElem?_flatMap_range (by omega) (fun line _ => picture.length_packRow _ _) hline
  have hband : (picture.band (row / 8))[column / 8 * (min 8 (picture.frame.height - row / 8 * 8) * 4) +
      (row % 8 * min 4 ((picture.frame.width - column / 8 * 8) / 2) + column % 8 / 2)]? =
      some (picture.pair (2 * (column / 2)) row) := by
    rw [band]
    refine getElem?_flatMap_range (by unfold tileCount; omega) (fun k hk => ?_) htile
    rw [length_packTile, Nat.min_eq_left (show 4 ≤ (picture.frame.width - k * 8) / 2 by omega)]
  rw [packTiles_eq]
  refine getElem?_flatMap_range (by unfold tileCount; omega) (fun n hn => ?_) hband
  rw [length_band, Nat.min_eq_left (by omega)]

-- Each place holds some pair. It is found by dividing by the length of a row of
-- tiles, of a tile and of a line.
theorem exists_packedAt_eq {width height place : Nat} (h : place < width / 2 * height) :
    ∃ column row, column / 2 < width / 2 ∧ row < height ∧
      packedAt width height column row = place := by
  have hplace := Nat.div_add_mod' place (width / 2 * 8)
  obtain ⟨hband, hinBand⟩ := @block_of_lt (width / 2) 8 height place (by decide) h
  generalize place / (width / 2 * 8) = band at hplace hband hinBand
  generalize place % (width / 2 * 8) = inBand at hplace hinBand
  generalize hlines : min 8 (height - band * 8) = lines at hinBand
  have hinBandPlace := Nat.div_add_mod' inBand (lines * 4)
  rw [Nat.mul_comm] at hinBand
  obtain ⟨htile, hinTile⟩ := @block_of_lt lines 4 (width / 2) inBand (by decide) hinBand
  generalize inBand / (lines * 4) = tile at hinBandPlace htile hinTile
  generalize inBand % (lines * 4) = inTile at hinBandPlace hinTile
  have hpairs : min 4 ((width - tile * 8) / 2) = min 4 (width / 2 - tile * 4) := by omega
  rw [← hpairs] at hinTile
  generalize hlength : min 4 ((width - tile * 8) / 2) = length at hinTile hpairs
  have hinTilePlace := Nat.div_add_mod' inTile length
  have hline : inTile / length < lines := Nat.div_lt_of_lt_mul (Nat.mul_comm _ _ ▸ hinTile)
  have hpair : inTile % length < length := Nat.mod_lt _ (by omega)
  generalize inTile / length = line at hinTilePlace hline
  generalize inTile % length = pair at hinTilePlace hpair
  have hcolumn : (tile * 8 + 2 * pair) / 8 = tile := by omega
  have hcolumnRest : (tile * 8 + 2 * pair) % 8 / 2 = pair := by omega
  have hrow : (band * 8 + line) / 8 = band := by omega
  have hrowRest : (band * 8 + line) % 8 = line := by omega
  refine ⟨tile * 8 + 2 * pair, band * 8 + line, by omega, by omega, ?_⟩
  rw [packedAt, hcolumn, hcolumnRest, hrow, hrowRest, hlines, hlength, hinTilePlace, hinBandPlace,
    hplace]

-- The size of a picture and its pairs.
def blob : Bytes :=
  Bytes.littleEndian 2 picture.frame.width ++ Bytes.littleEndian 2 picture.frame.height ++
    picture.packTiles

theorem length_blob :
    picture.blob.length = 4 + picture.frame.width / 2 * picture.frame.height := by
  rw [blob, List.length_append, List.length_append, Bytes.length_littleEndian,
    Bytes.length_littleEndian, length_packTiles]

theorem getElem?_blob (place : Nat) : picture.blob[4 + place]? = picture.packTiles[place]? := by
  rw [blob, List.getElem?_append_right (by simp)]
  simp

-- A picture has all its pixels, and the header has room for its size.
structure Packable : Prop where
  complete : picture.frame.area ≤ picture.pixels.size
  width_le : picture.frame.width ≤ 0xFFFF
  height_le : picture.frame.height ≤ 0xFFFF

section Packable

variable {picture}

theorem pixelsNeeded_le (picture : IndexedPicture) :
    picture.pixelsNeeded ≤ picture.frame.area := by
  rw [pixelsNeeded, Frame.area]
  split
  · exact Nat.zero_le _
  · obtain ⟨rows, hrows⟩ := Nat.exists_eq_add_one_of_ne_zero
      (show picture.frame.height ≠ 0 by omega)
    rw [hrows, Nat.add_sub_cancel, Nat.mul_succ picture.frame.width rows, Nat.mul_comm rows]
    omega

theorem memoryNeeded_eq {width height : Nat} (hcolumns : picture.frame.columns = width)
    (hrows : picture.frame.rows = height) (hwidth : width ≤ 0xFFFF) (hheight : height ≤ 0xFFFF) :
    picture.memoryNeeded = 4 + ((width * height + 1) / 2 : Nat) := by
  have harea : width * height ≤ 0xFFFF * 0xFFFF := Nat.mul_le_mul hwidth hheight
  have hpixels : picture.frame.columns * picture.frame.rows = (width * height : Nat) := by
    rw [hcolumns, hrows, Int.natCast_mul]
  have hnext : ((width * height : Nat) : Int) + 1 = (width * height + 1 : Nat) := rfl
  rw [memoryNeeded, hpixels, Numeral.wrapInt64_natCast (by omega), hnext,
    Numeral.wrapInt64_natCast (by omega)]
  rfl

theorem tiles_eq_ok {width height : Nat} (hcolumns : picture.frame.columns = width)
    (hrows : picture.frame.rows = height) (hwidth : width ≤ 0xFFFF) (hheight : height ≤ 0xFFFF)
    (hcomplete : picture.frame.area ≤ picture.pixels.size) :
    picture.tiles =
      .ok (Bytes.littleEndian 2 width ++ Bytes.littleEndian 2 height ++ picture.packTiles) := by
  have harea : width * height ≤ 0xFFFF * 0xFFFF := Nat.mul_le_mul hwidth hheight
  have hpixels := Nat.le_trans picture.pixelsNeeded_le hcomplete
  have hside : ∀ n : Nat, n ≤ 0xFFFF → ((n : Int) % 65536).toNat = n := by omega
  rw [tiles, memoryNeeded_eq hcolumns hrows hwidth hheight, hcolumns, hrows]
  rw [if_neg (by unfold maxSide; omega), if_neg (by unfold maxMemory; omega),
    if_neg (by omega), if_neg (Nat.not_lt.mpr hpixels), sideBytes, sideBytes, hside _ hwidth,
    hside _ hheight]

theorem Packable.tiles_eq (h : picture.Packable) : picture.tiles = .ok picture.blob :=
  tiles_eq_ok (Numeral.wrapInt64_natCast (Nat.le_trans h.width_le (by decide)))
    (Numeral.wrapInt64_natCast (Nat.le_trans h.height_le (by decide))) h.width_le h.height_le
    h.complete

end Packable

end IndexedPicture

end TileConsole
