import TileConsole.Proofs.Picture.Cropping

namespace TileConsole.IndexedPicture

open Screen (half)

-- No pixel is missing, and a list has fewer than 2^63 entries.
structure Complete (picture : IndexedPicture) : Prop where
  area_le : picture.frame.area ≤ picture.pixels.size
  size_lt : picture.pixels.size < 0x8000000000000000

-- The tiles of a picture, byte by byte: its size, and in each further byte two
-- pixels, the left one in the high half. `tx` and `ty` are the corner of a tile.
structure Packs (picture : IndexedPicture) (w h : Nat) (blob : Bytes) : Prop where
  length_eq : blob.length = 4 + w / 2 * h
  header_eq : blob.take 4 = Bytes.littleEndian 2 w ++ Bytes.littleEndian 2 h
  pixel_eq : ∀ i < 2 * (w / 2), ∀ j < h,
    let tx := 8 * (i / 8)
    let ty := 8 * (j / 8)
    let place := 4 + ty * (w / 2) + min 8 (h - ty) * (tx / 2) +
      (j - ty) * (min 8 (w - tx) / 2) + (i - tx) / 2
    ∃ byte, blob[place]? = some byte ∧ half byte i =
      picture.indexAt (picture.frame.left + i) (picture.frame.top + j) &&& 0x0F

-- Two pictures have the same pixels modulo 16, up to the last column of an odd
-- width.
def AgreesWith (picture other : IndexedPicture) (w h : Nat) : Prop :=
  ∀ i < w, ∀ j < h, ¬(w % 2 = 1 ∧ i = w - 1) →
    (picture.indexAt (picture.frame.left + i) (picture.frame.top + j)).toNat % 16 =
      (other.indexAt (other.frame.left + i) (other.frame.top + j)).toNat % 16

theorem tiles_eq_tooLarge_iff (picture : IndexedPicture) (width height : Int) :
    picture.tiles = .error (.tooLarge width height) ↔
      (picture.frame.columns = width ∧ picture.frame.rows = height) ∧
        (maxSide < picture.frame.columns ∨ maxSide < picture.frame.rows) := by
  unfold tiles
  dsimp only
  split
  case isTrue hlarge => simp [hlarge]
  case isFalse hsmall =>
    simp only [hsmall, and_false, iff_false]
    split
    · simp
    · split
      · simp
      · split <;> simp

-- Where the byte of a pixel lies, told by the corner of its tile.
theorem packedAt_eq (w h i j : Nat) :
    packedAt w h i j =
      8 * (j / 8) * (w / 2) + min 8 (h - 8 * (j / 8)) * (8 * (i / 8) / 2) +
        (j - 8 * (j / 8)) * (min 8 (w - 8 * (i / 8)) / 2) + (i - 8 * (i / 8)) / 2 := by
  have hi : i - 8 * (i / 8) = i % 8 := by omega
  have hj : j - 8 * (j / 8) = j % 8 := by omega
  have hpairs : min 8 (w - 8 * (i / 8)) / 2 = min 4 ((w - i / 8 * 8) / 2) := by omega
  have hband : 8 * (j / 8) * (w / 2) = j / 8 * (w / 2 * 8) := by
    rw [Nat.mul_comm 8, Nat.mul_assoc, Nat.mul_comm 8]
  have htile : min 8 (h - 8 * (j / 8)) * (8 * (i / 8) / 2) =
      i / 8 * (min 8 (h - j / 8 * 8) * 4) := by
    have hleft : 8 * (i / 8) / 2 = i / 8 * 4 := by omega
    rw [hleft, Nat.mul_left_comm, Nat.mul_comm 8]
  rw [packedAt, hi, hj, hpairs, hband, htile]
  omega

section Sides

variable {picture other : IndexedPicture} {w h : Nat}

-- The sides are as they are measured, unless the picture has no pixels.
theorem Complete.sides (hcomplete : picture.Complete) (hw : picture.frame.columns = w)
    (hh : picture.frame.rows = h) :
    (picture.frame.width = w ∧ picture.frame.height = h) ∨
      (picture.frame.width * picture.frame.height = 0 ∧ w * h = 0) := by
  have hlt := Nat.lt_of_le_of_lt hcomplete.area_le hcomplete.size_lt
  rw [Frame.columns] at hw
  rw [Frame.rows] at hh
  rw [Frame.area] at hlt
  rcases Nat.eq_zero_or_pos (picture.frame.width * picture.frame.height) with hempty | hpixels
  · refine .inr ⟨hempty, ?_⟩
    rcases Nat.mul_eq_zero.mp hempty with hzero | hzero
    · rw [hzero] at hw
      obtain rfl : 0 = w := Int.ofNat.inj hw
      exact Nat.zero_mul h
    · rw [hzero] at hh
      obtain rfl : 0 = h := Int.ofNat.inj hh
      exact Nat.mul_zero w
  · have hwidth := Nat.le_mul_of_pos_right picture.frame.width (Nat.pos_of_mul_pos_left hpixels)
    have hheight := Nat.le_mul_of_pos_left picture.frame.height (Nat.pos_of_mul_pos_right hpixels)
    rw [Numeral.wrapInt64_natCast (by omega)] at hw hh
    exact .inl ⟨Int.ofNat.inj hw, Int.ofNat.inj hh⟩

theorem Complete.length_packTiles (hcomplete : picture.Complete) (hw : picture.frame.columns = w)
    (hh : picture.frame.rows = h) : picture.packTiles.length = w / 2 * h := by
  rw [picture.length_packTiles]
  rcases hcomplete.sides hw hh with ⟨hwidth, hheight⟩ | ⟨hempty, hnone⟩
  · rw [hwidth, hheight]
  · rcases Nat.mul_eq_zero.mp hempty with hzero | hzero <;>
      rcases Nat.mul_eq_zero.mp hnone with hzero' | hzero' <;> simp [hzero, hzero']

-- Each pixel but the last one of an odd row is in a byte of its own pair.
theorem Complete.getElem?_packTiles (hcomplete : picture.Complete)
    (hw : picture.frame.columns = w) (hh : picture.frame.rows = h) {i j : Nat}
    (hi : i / 2 < w / 2) (hj : j < h) :
    picture.packTiles[packedAt w h i j]? = some (picture.pair (2 * (i / 2)) j) := by
  rcases hcomplete.sides hw hh with ⟨rfl, rfl⟩ | ⟨-, hnone⟩
  · exact picture.getElem?_packTiles hi hj
  · rcases Nat.mul_eq_zero.mp hnone with rfl | rfl <;> omega

theorem agreesWith_iff : picture.AgreesWith other w h ↔
    ∀ i j, i / 2 < w / 2 → j < h → picture.index i j &&& 0x0F = other.index i j &&& 0x0F := by
  have hlow : ∀ a b : UInt8, a &&& 0x0F = b &&& 0x0F ↔ a.toNat % 16 = b.toNat % 16 := by
    intro a b
    rw [← Bytes.toNat_low, ← Bytes.toNat_low, UInt8.toNat_inj]
  simp only [AgreesWith, indexAt_corner, hlow]
  constructor
  · intro hsame i j hi hj
    exact hsame i (by omega) j hj (by omega)
  · intro hsame i hi j hj hkept
    exact hsame i j (by omega) hj

-- Pictures of one size are packed alike if they agree in what is packed.
theorem Complete.packTiles_eq_iff (hcomplete : picture.Complete) (hother : other.Complete)
    (hw : picture.frame.columns = w) (hh : picture.frame.rows = h)
    (hw' : other.frame.columns = w) (hh' : other.frame.rows = h) :
    picture.packTiles = other.packTiles ↔ picture.AgreesWith other w h := by
  rw [agreesWith_iff]
  constructor
  · intro hsame i j hi hj
    have hpair := hcomplete.getElem?_packTiles hw hh hi hj
    rw [hsame, hother.getElem?_packTiles hw' hh' hi hj, Option.some.injEq] at hpair
    rw [← half_pair, ← half_pair, hpair]
  · intro hsame
    apply List.ext_getElem?
    intro place
    by_cases hplace : place < w / 2 * h
    · obtain ⟨i, j, hi, hj, rfl⟩ := exists_packedAt_eq hplace
      have hleft := hsame (2 * (i / 2)) j (by omega) hj
      have hright := hsame (2 * (i / 2) + 1) j (by omega) hj
      rw [hcomplete.getElem?_packTiles hw hh hi hj, hother.getElem?_packTiles hw' hh' hi hj, pair,
        pair, hleft, hright]
    · have hlength := hcomplete.length_packTiles hw hh
      have hlength' := hother.length_packTiles hw' hh'
      rw [List.getElem?_eq_none (by omega), List.getElem?_eq_none (by omega)]

theorem Complete.packs (hcomplete : picture.Complete) (hw : picture.frame.columns = w)
    (hh : picture.frame.rows = h) :
    picture.Packs w h
      (Bytes.littleEndian 2 w ++ Bytes.littleEndian 2 h ++ picture.packTiles) where
  length_eq := by
    rw [List.length_append, hcomplete.length_packTiles hw hh]
    simp
  header_eq := List.take_left' (by simp)
  pixel_eq := by
    intro i hi j hj tx ty place
    have hplace : place = 4 + packedAt w h i j := by
      rw [packedAt_eq, ← Nat.add_assoc, ← Nat.add_assoc, ← Nat.add_assoc]
    have hbyte := hcomplete.getElem?_packTiles hw hh (show i / 2 < w / 2 by omega) hj
    refine ⟨_, ?_, half_pair picture i j |>.trans (by rw [indexAt_corner])⟩
    rw [hplace, List.getElem?_append_right (by simp)]
    simpa using hbyte

theorem Complete.crop (hcomplete : picture.Complete) (part : Frame) :
    (picture.crop part).Complete := by
  have hsize := size_crop hcomplete.area_le part
  refine ⟨Nat.le_of_eq hsize.symm, ?_⟩
  rw [hsize]
  exact Nat.lt_of_le_of_lt (Nat.le_trans (picture.frame.area_intersect_le part) hcomplete.area_le)
    hcomplete.size_lt

-- The tiles of every picture that has all its pixels, wherever it lies in the
-- plane and whether or not it is a part of another one. Left out are rectangles
-- without pixels that are 2^63 or more wide or high: their measured side is
-- negative, so that it is neither `w` nor `h`.
theorem tiles_closed_form (hw : picture.frame.columns = w) (hh : picture.frame.rows = h) :
    (∀ width height : Int, picture.tiles = .error (.tooLarge width height) ↔
      (w = width ∧ h = height) ∧ (0xFFFF < w ∨ 0xFFFF < h)) ∧
    (picture.Complete → w ≤ 0xFFFF → h ≤ 0xFFFF →
      ∃ blob, picture.tiles = .ok blob ∧ picture.Packs w h blob ∧
        ∀ other : IndexedPicture, other.Complete → other.frame.columns = w →
          other.frame.rows = h → (other.tiles = .ok blob ↔ picture.AgreesWith other w h)) ∧
    ∀ (whole : IndexedPicture) (part : Frame), whole.Complete → picture = whole.crop part →
      picture.Complete ∧ ∀ i < w, ∀ j < h,
        picture.indexAt (picture.frame.left + i) (picture.frame.top + j) =
          whole.indexAt (picture.frame.left + i) (picture.frame.top + j) := by
  refine ⟨?_, ?_, ?_⟩
  · intro width height
    rw [tiles_eq_tooLarge_iff, hw, hh, maxSide]
    omega
  · intro hcomplete hwidth hheight
    refine ⟨_, tiles_eq_ok hw hh hwidth hheight hcomplete.area_le, hcomplete.packs hw hh, ?_⟩
    intro other hother hw' hh'
    rw [tiles_eq_ok hw' hh' hwidth hheight hother.area_le, Except.ok.injEq,
      List.append_cancel_left_eq, ← hcomplete.packTiles_eq_iff hother hw hh hw' hh', eq_comm]
  · rintro whole part hwhole rfl
    refine ⟨hwhole.crop part, ?_⟩
    intro i hi j hj
    rcases (hwhole.crop part).sides hw hh with ⟨rfl, rfl⟩ | ⟨-, hnone⟩
    · rw [indexAt_corner]
      exact indexAt_crop hwhole.area_le part hi hj
    · rcases Nat.mul_eq_zero.mp hnone with rfl | rfl <;> omega

end Sides

-- A part that starts in the second column of a picture, with a partial tile on
-- the right.
theorem tiles_closed_form_of_part :
    let whole : IndexedPicture :=
      ⟨⟨-1, 0, 12, 2⟩, Screen.palette, Array.ofFn fun i : Fin 24 => UInt8.ofNat i.val⟩
    let picture := whole.crop ⟨0, 0, 10, 2⟩
    ∃ blob byte, picture.tiles = .ok blob ∧ blob.length = 14 ∧ blob[13]? = some byte ∧
      byte &&& 0x0F = 22 &&& 0x0F ∧ whole.indexAt 9 1 = 22 := by
  intro whole picture
  have hwhole : whole.Complete := ⟨by simp [whole, Frame.area], by simp [whole]⟩
  have hframe : picture.frame = ⟨0, 0, 10, 2⟩ := by decide
  have hw : picture.frame.columns = (10 : Nat) := by rw [hframe]; rfl
  have hh : picture.frame.rows = (2 : Nat) := by rw [hframe]; rfl
  obtain ⟨-, hform, hpart⟩ := tiles_closed_form hw hh
  obtain ⟨hcomplete, hindex⟩ := hpart whole _ hwhole rfl
  obtain ⟨blob, htiles, hpacks, -⟩ := hform hcomplete (by decide) (by decide)
  obtain ⟨byte, hbyte, hhalf⟩ := hpacks.pixel_eq 9 (by decide) 1 (by decide)
  have hpixel : whole.indexAt 9 1 = 22 := by
    simp [indexAt, index, whole]
  rw [hindex 9 (by decide) 1 (by decide), hframe] at hhalf
  refine ⟨blob, byte, htiles, hpacks.length_eq, hbyte, ?_, hpixel⟩
  rw [← hpixel]
  exact hhalf

end TileConsole.IndexedPicture
