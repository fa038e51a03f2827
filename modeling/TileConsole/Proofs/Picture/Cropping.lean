import TileConsole.Proofs.Picture.Packing

namespace TileConsole

namespace Frame

-- A smaller rectangle lies in a larger one.
structure Within (part whole : Frame) : Prop where
  left : whole.left ≤ part.left
  right : part.right ≤ whole.right
  top : whole.top ≤ part.top
  bottom : part.bottom ≤ whole.bottom

-- Two rectangles that share no pixel give the empty one at the origin, which
-- need not lie in either.
theorem intersect_cases (a b : Frame) :
    (a.intersect b).Within a ∨ a.intersect b = ⟨0, 0, 0, 0⟩ := by
  unfold intersect
  dsimp only
  split
  case isTrue h =>
    refine .inl ⟨?_, ?_, ?_, ?_⟩ <;> simp only [right, bottom] at * <;> omega
  case isFalse => exact .inr rfl

theorem Within.area_le {part whole : Frame} (h : part.Within whole) : part.area ≤ whole.area := by
  obtain ⟨hleft, hright, htop, hbottom⟩ := h
  simp only [Frame.right, Frame.bottom] at hright hbottom
  exact Nat.mul_le_mul (by omega) (by omega)

theorem area_intersect_le (a b : Frame) : (a.intersect b).area ≤ a.area := by
  rcases a.intersect_cases b with hwithin | hempty
  · exact hwithin.area_le
  · rw [hempty]
    exact Nat.zero_le _

end Frame

section Rows

variable {whole part : Frame} {bytes : Array UInt8}

-- Where a row of the smaller rectangle starts in the larger one.
def rowStart (whole part : Frame) (row : Nat) : Nat :=
  ((part.top - whole.top).toNat + row) * whole.width + (part.left - whole.left).toNat

theorem toList_cropBytes (whole part : Frame) (bytes : Array UInt8) :
    (cropBytes whole part 1 bytes).toList =
      (List.range part.height).flatMap fun row =>
        (bytes.toList.drop (rowStart whole part row)).take part.width := by
  unfold cropBytes
  rw [Array.foldl_toList_eq_flatMap, List.nil_append]
  intro found row
  rw [Array.toList_append, Array.toList_extract, List.extract_eq_take_drop]
  simp [rowStart]

theorem Frame.Within.rowStart_add_le (h : part.Within whole) {row : Nat}
    (hrow : row < part.height) : rowStart whole part row + part.width ≤ whole.area := by
  obtain ⟨hleft, hright, htop, hbottom⟩ := h
  simp only [Frame.right, Frame.bottom] at hright hbottom
  have hrows : ((part.top - whole.top).toNat + row + 1) * whole.width ≤
      whole.height * whole.width := Nat.mul_le_mul_right _ (by omega)
  rw [Nat.succ_mul] at hrows
  rw [rowStart, Frame.area, Nat.mul_comm whole.width]
  omega

theorem Frame.Within.length_row (h : part.Within whole) (hbytes : whole.area ≤ bytes.size)
    {row : Nat} (hrow : row < part.height) :
    ((bytes.toList.drop (rowStart whole part row)).take part.width).length = part.width := by
  have hend := h.rowStart_add_le hrow
  rw [List.length_take, List.length_drop, Array.length_toList]
  omega

theorem Frame.Within.size_cropBytes (h : part.Within whole) (hbytes : whole.area ≤ bytes.size) :
    (cropBytes whole part 1 bytes).size = part.area := by
  have hrows : ∀ row ∈ List.range part.height,
      ((bytes.toList.drop (rowStart whole part row)).take part.width).length = part.width := by
    intro row hrow
    exact h.length_row hbytes (List.mem_range.mp hrow)
  rw [← Array.length_toList, toList_cropBytes, List.length_flatMap, List.map_congr_left hrows,
    Frame.area]
  simp [Nat.mul_comm]

theorem Frame.Within.getElem?_cropBytes (h : part.Within whole) (hbytes : whole.area ≤ bytes.size)
    {column row : Nat} (hcolumn : column < part.width) (hrow : row < part.height) :
    (cropBytes whole part 1 bytes)[row * part.width + column]? =
      bytes[rowStart whole part row + column]? := by
  have hplace : rowStart whole part row + column < bytes.toList.length := by
    have hend := h.rowStart_add_le hrow
    rw [Array.length_toList]
    omega
  have hentry : ((bytes.toList.drop (rowStart whole part row)).take part.width)[column]? =
      some bytes.toList[rowStart whole part row + column] := by
    rw [List.getElem?_take_of_lt hcolumn, List.getElem?_drop, List.getElem?_eq_getElem hplace]
  rw [← Array.getElem?_toList, toList_cropBytes, getElem?_flatMap_range hrow _ hentry,
    ← List.getElem?_eq_getElem hplace, Array.getElem?_toList]
  intro above habove
  exact h.length_row hbytes (Nat.lt_trans habove hrow)

end Rows

namespace IndexedPicture

-- The palette number at a position of the plane.
def indexAt (picture : IndexedPicture) (x y : Int) : UInt8 :=
  picture.index (x - picture.frame.left).toNat (y - picture.frame.top).toNat

@[simp]
theorem indexAt_corner (picture : IndexedPicture) (i j : Nat) :
    picture.indexAt (picture.frame.left + i) (picture.frame.top + j) = picture.index i j := by
  have hi : (picture.frame.left + i - picture.frame.left).toNat = i := by omega
  have hj : (picture.frame.top + j - picture.frame.top).toNat = j := by omega
  rw [indexAt, hi, hj]

variable {picture : IndexedPicture} (h : picture.frame.area ≤ picture.pixels.size) (part : Frame)

include h

-- A part of a picture has all its pixels.
theorem size_crop : (picture.crop part).pixels.size = (picture.crop part).frame.area := by
  rcases picture.frame.intersect_cases part with hwithin | hempty
  · exact hwithin.size_cropBytes h
  · simp only [crop, hempty]
    rfl

-- They are those of the whole at the same positions.
theorem indexAt_crop {i j : Nat} (hi : i < (picture.crop part).frame.width)
    (hj : j < (picture.crop part).frame.height) :
    (picture.crop part).index i j = picture.indexAt ((picture.crop part).frame.left + i)
      ((picture.crop part).frame.top + j) := by
  rcases picture.frame.intersect_cases part with hwithin | hempty
  · have hentry := hwithin.getElem?_cropBytes h hi hj
    have hleft := hwithin.left
    have htop := hwithin.top
    have hplace : rowStart picture.frame (picture.frame.intersect part) j + i =
        ((picture.crop part).frame.top + j - picture.frame.top).toNat * picture.frame.width +
          ((picture.crop part).frame.left + i - picture.frame.left).toNat := by
      have hrow : ((picture.frame.intersect part).top + j - picture.frame.top).toNat =
          ((picture.frame.intersect part).top - picture.frame.top).toNat + j := by omega
      rw [rowStart, crop, hrow]
      dsimp only
      omega
    rw [indexAt, index, index, Array.getD_eq_getD_getElem?, Array.getD_eq_getD_getElem?, ← hplace,
      ← hentry]
    rfl
  · rw [crop, hempty] at hi
    exact absurd hi (Nat.not_lt_zero i)

end IndexedPicture

end TileConsole
