import TileConsole.Machine.Screen
import TileConsole.Proofs.Bytes

namespace TileConsole.Screen

-- The pixel that a packed byte holds for a column.
def half (packed : UInt8) (column : Nat) : UInt8 :=
  if column % 2 = 0 then packed >>> 4 else packed &&& 0x0F

-- The number of the packed byte that is drawn at a column and a row of a picture
-- that is `across` tiles wide.
def pairAt (across column row : Nat) : Nat :=
  32 * (row / 8 * across + column / 8) + 4 * (row % 8) + column % 8 / 2

section Pairs

variable {across column row k : Nat}

theorem pairColumn_mod_two (across k : Nat) : pairColumn across k % 2 = 0 := by
  unfold pairColumn
  omega

theorem pairAt_div (across column row : Nat) :
    pairAt across column row / 32 = row / 8 * across + column / 8 := by
  unfold pairAt
  omega

theorem pairColumn_pairAt (h : column < 8 * across) :
    pairColumn across (pairAt across column row) = 2 * (column / 2) := by
  have hlow : pairAt across column row % 4 = column % 8 / 2 := by
    unfold pairAt
    omega
  have hacross : column / 8 < across := by omega
  rw [pairColumn, pairAt_div, hlow, Nat.mul_add_mod_self_right, Nat.mod_eq_of_lt hacross]
  omega

theorem pairRow_pairAt (h : column < 8 * across) :
    pairRow across (pairAt across column row) = row := by
  have hlow : pairAt across column row % 32 / 4 = row % 8 := by
    unfold pairAt
    omega
  have hacross : column / 8 < across := by omega
  rw [pairRow, pairAt_div, hlow, Nat.mul_comm (row / 8),
    Nat.mul_add_div (Nat.zero_lt_of_lt hacross), Nat.div_eq_of_lt hacross]
  omega

theorem pairAt_pair (hacross : 0 < across) (hcolumn : column / 2 = pairColumn across k / 2)
    (hrow : row = pairRow across k) : column < 8 * across ∧ pairAt across column row = k := by
  have hrest := Nat.mod_lt (k / 32) hacross
  have htile := Nat.div_add_mod' (k / 32) across
  unfold pairColumn at hcolumn
  unfold pairRow at hrow
  have hleft : column / 8 = k / 32 % across := by omega
  have htop : row / 8 = k / 32 / across := by omega
  refine ⟨by omega, ?_⟩
  rw [pairAt, hleft, htop, htile]
  omega

-- A packed byte is drawn at two columns of one row, and it is the only one that
-- is drawn there.
theorem pair_eq_iff (hacross : 0 < across) :
    (column / 2 = pairColumn across k / 2 ∧ row = pairRow across k) ↔
      column < 8 * across ∧ pairAt across column row = k := by
  constructor
  · rintro ⟨hcolumn, hrow⟩
    exact pairAt_pair hacross hcolumn hrow
  · rintro ⟨hcolumn, rfl⟩
    rw [pairColumn_pairAt hcolumn, pairRow_pairAt hcolumn]
    omega

theorem pairAt_lt_iff (h : column < 8 * across) (down : Nat) :
    pairAt across column row < 32 * across * down ↔ row < 8 * down := by
  have hacross : column / 8 < across := by omega
  constructor
  · intro hlt
    apply Nat.lt_of_not_le
    intro hout
    have hmul : down * across ≤ row / 8 * across := Nat.mul_le_mul_right across (by omega)
    rw [Nat.mul_assoc, Nat.mul_comm across] at hlt
    unfold pairAt at hlt
    omega
  · intro hlt
    have hmul : (row / 8 + 1) * across ≤ down * across := Nat.mul_le_mul_right across (by omega)
    rw [Nat.add_mul] at hmul
    rw [Nat.mul_assoc, Nat.mul_comm across]
    unfold pairAt
    omega

end Pairs

theorem getD_eq_getElem (vram : VideoMemory) {i : Nat} (h : i < vramSize) :
    vram.getD i 0 = vram[i] := by
  rw [Vector.getD, Array.getD_eq_getD_getElem?, Vector.getElem?_toArray,
    Vector.getElem?_eq_getElem h, Option.getD_some]

-- The pixels of the list, row by row, are the positions on the screen.
theorem inside_linear {n : Nat} (h : n < screenWidth * screenHeight) :
    Inside (n % screenWidth : Nat) (n / screenWidth : Nat) := by
  simp only [Inside, screenWidth, screenHeight] at h ⊢
  omega

theorem getElem_eq_pixel (screen : Screen) {n : Nat} (h : n < screenWidth * screenHeight) :
    screen[n] = screen.pixel (n % screenWidth : Nat) (n / screenWidth : Nat) := by
  rw [pixel, dif_pos (inside_linear h)]
  congr 1
  exact (place_linear n).symm

theorem pixel_blank (p q : Int) : blank.pixel p q = 0 := by
  unfold pixel blank
  split
  · exact Vector.getElem_replicate _
  · rfl

-- Plotting keeps the low half of a byte, so a half stays as it is.
theorem half_and (packed : UInt8) (column : Nat) :
    half packed column &&& 0x0F = half packed column := by
  apply UInt8.toNat_inj.mp
  have hlt := packed.toNat_lt
  rw [Bytes.toNat_low, half]
  split
  · rw [Bytes.toNat_high]
    omega
  · rw [Bytes.toNat_low]
    omega

theorem pixel_plotPair (screen : Screen) (x y : Int) (packed : UInt8) (p q : Int) :
    (screen.plotPair x y packed).pixel p q =
      if Inside p q ∧ q = y ∧ (p = x ∨ p = x + 1) then
        half packed (p - x).toNat
      else screen.pixel p q := by
  have hhalves : screen.plotPair x y packed =
      (screen.plot x y (half packed 0)).plot (x + 1) y (half packed 1) := rfl
  rw [hhalves, pixel_plot, pixel_plot, half_and, half_and]
  by_cases hright : p = x + 1 ∧ q = y
  · obtain ⟨rfl, rfl⟩ := hright
    have hcolumn : (x + 1 - x).toNat = 1 := by omega
    have hother : x ≠ x + 1 := by omega
    rw [hcolumn]
    simp [hother]
  · by_cases hleft : p = x ∧ q = y
    · obtain ⟨rfl, rfl⟩ := hleft
      have hother : p + 1 ≠ p := by omega
      simp [hother]
    · have hmiss : ¬(q = y ∧ (p = x ∨ p = x + 1)) := by omega
      rw [if_neg (by omega), if_neg (by omega), if_neg fun h => hmiss h.2]

theorem drawPairs_succ (vram : VideoMemory) (start across : Nat) (x y : Int) (count : Nat)
    (screen : Screen) :
    drawPairs vram start across x y (count + 1) screen =
      (drawPairs vram start across x y count screen).plotPair (x + pairColumn across count)
        (y + pairRow across count) (vram.getD (start + 4 + count) 0) := by
  rw [drawPairs, List.range_succ, List.foldl_append]
  rfl

theorem hit_iff {across : Nat} (hacross : 0 < across) (x y p q : Int) (k : Nat) :
    (q = y + pairRow across k ∧
        (p = x + pairColumn across k ∨ p = x + pairColumn across k + 1)) ↔
      x ≤ p ∧ p < x + 8 * across ∧ y ≤ q ∧ pairAt across (p - x).toNat (q - y).toNat = k := by
  have hpair := @pair_eq_iff across (p - x).toNat (q - y).toNat k hacross
  have heven := pairColumn_mod_two across k
  constructor
  · rintro ⟨hq, hp⟩
    have hcovered := hpair.mp (by omega)
    omega
  · rintro ⟨hleft, hright, htop, hk⟩
    have hcovered := hpair.mpr (by omega)
    omega

-- By induction on the number of packed bytes. No byte is drawn over an earlier
-- one.
theorem pixel_drawPairs (vram : VideoMemory) (start : Nat) {across : Nat} (hacross : 0 < across)
    (x y : Int) (count : Nat) (screen : Screen) (p q : Int) :
    (drawPairs vram start across x y count screen).pixel p q =
      if Inside p q ∧ x ≤ p ∧ p < x + 8 * across ∧ y ≤ q ∧
          pairAt across (p - x).toNat (q - y).toNat < count then
        half (vram.getD (start + 4 + pairAt across (p - x).toNat (q - y).toNat) 0) (p - x).toNat
      else screen.pixel p q := by
  induction count with
  | zero => simp [drawPairs]
  | succ count ih =>
    have hhit := hit_iff hacross x y p q count
    rw [drawPairs_succ, pixel_plotPair, ih]
    by_cases hnew : Inside p q ∧ q = y + pairRow across count ∧
        (p = x + pairColumn across count ∨ p = x + pairColumn across count + 1)
    · obtain ⟨hleft, hright, htop, hk⟩ := hhit.mp hnew.2
      have heven := pairColumn_mod_two across count
      have hparity : (p - (x + pairColumn across count)).toNat % 2 = (p - x).toNat % 2 := by
        omega
      rw [if_pos hnew, if_pos ⟨hnew.1, hleft, hright, htop, by omega⟩, hk, half, half, hparity]
    · rw [if_neg hnew]
      congr 1
      simp only [eq_iff_iff]
      constructor
      · rintro ⟨hinside, hleft, hright, htop, hlt⟩
        exact ⟨hinside, hleft, hright, htop, Nat.lt_succ_of_lt hlt⟩
      · rintro ⟨hinside, hleft, hright, htop, hlt⟩
        have hother : pairAt across (p - x).toNat (q - y).toNat ≠ count := fun hk =>
          hnew ⟨hinside, hhit.mpr ⟨hleft, hright, htop, hk⟩⟩
        exact ⟨hinside, hleft, hright, htop, by omega⟩

-- What is drawn of the tiles at an offset of video memory. Each pixel shows one
-- half of one byte, unless that byte is past the end of video memory.
theorem pixel_drawTiles (screen : Screen) (vram : VideoMemory) {start : Nat}
    (hstart : start + 4 ≤ vramSize) (x y p q : Int) :
    let across := tileCount (wordAt vram start)
    let down := tileCount (wordAt vram (start + 2))
    let address := start + 4 + pairAt across (p - x).toNat (q - y).toNat
    (screen.drawTiles vram start x y).pixel p q =
      if Inside p q ∧ x ≤ p ∧ p < x + 8 * across ∧ y ≤ q ∧ q < y + 8 * down ∧
          address < vramSize then
        half (vram.getD address 0) (p - x).toNat
      else screen.pixel p q := by
  intro across down address
  rw [drawTiles, if_neg (Nat.not_lt.mpr hstart)]
  dsimp only
  by_cases hacross : 0 < across
  · rw [pixel_drawPairs vram start hacross]
    congr 1
    simp only [eq_iff_iff, Nat.lt_min]
    constructor
    · rintro ⟨hinside, hleft, hright, htop, hcount, hroom⟩
      have hdown := (pairAt_lt_iff (by omega) down).mp hcount
      exact ⟨hinside, hleft, hright, htop, by omega, by omega⟩
    · rintro ⟨hinside, hleft, hright, htop, hbottom, hroom⟩
      have hcount := (@pairAt_lt_iff across (p - x).toNat (q - y).toNat (by omega) down).mpr
        (by omega)
      exact ⟨hinside, hleft, hright, htop, hcount, by omega⟩
  · -- without a column of tiles nothing is drawn
    have hnone : across = 0 := Nat.eq_zero_of_not_pos hacross
    have hcount : min (32 * across * down) (vramSize - (start + 4)) = 0 := by
      simp [hnone]
    rw [if_neg (by omega)]
    exact congrArg (fun count => (drawPairs vram start across x y count screen).pixel p q) hcount

-- The pixel that the tiles at an offset of video memory have in a column and a
-- row, if there are so many tiles and video memory reaches that far.
def tilePixel? (vram : VideoMemory) (start column row : Nat) : Option UInt8 :=
  let across := tileCount (wordAt vram start)
  let down := tileCount (wordAt vram (start + 2))
  let address := start + 4 + 32 * (row / 8 * across + column / 8) + 4 * (row % 8) + column % 8 / 2
  if start + 4 ≤ vramSize ∧ column < 8 * across ∧ row < 8 * down then
    vram[address]?.map (half · column)
  else none

-- A screen with tiles over it, each pixel told by itself.
def overlay (screen : Screen) (vram : VideoMemory) (start : Nat) (x y : Int) : Screen :=
  Vector.ofFn fun n =>
    let column := (n.val % screenWidth : Nat) - x
    let row := (n.val / screenWidth : Nat) - y
    if 0 ≤ column ∧ 0 ≤ row then
      (tilePixel? vram start column.toNat row.toNat).getD screen[n]
    else screen[n]

theorem tilePixel?_eq (vram : VideoMemory) {start : Nat} (hstart : start + 4 ≤ vramSize)
    (column row : Nat) :
    let across := tileCount (wordAt vram start)
    let down := tileCount (wordAt vram (start + 2))
    let address := start + 4 + pairAt across column row
    tilePixel? vram start column row =
      if column < 8 * across ∧ row < 8 * down ∧ address < vramSize then
        some (half (vram.getD address 0) column)
      else none := by
  intro across down address
  have haddress : start + 4 + 32 * (row / 8 * across + column / 8) + 4 * (row % 8) +
      column % 8 / 2 = address := by
    simp only [address, pairAt]
    omega
  rw [tilePixel?, haddress]
  by_cases hroom : address < vramSize
  · rw [Vector.getElem?_eq_getElem hroom, getD_eq_getElem _ hroom]
    simp [hstart, hroom, across, down]
  · rw [Vector.getElem?_eq_none (Nat.le_of_not_lt hroom)]
    simp [hroom]

theorem drawTiles_eq_overlay (screen : Screen) (vram : VideoMemory) (start : Nat) (x y : Int) :
    screen.drawTiles vram start x y = screen.overlay vram start x y := by
  apply Vector.ext
  intro n hn
  have hinside := inside_linear hn
  rw [overlay, Vector.getElem_ofFn, getElem_eq_pixel _ hn, Fin.getElem_fin,
    getElem_eq_pixel screen hn]
  dsimp only
  generalize ((n % screenWidth : Nat) : Int) = p at hinside ⊢
  generalize ((n / screenWidth : Nat) : Int) = q at hinside ⊢
  by_cases hstart : start + 4 ≤ vramSize
  · rw [pixel_drawTiles screen vram hstart, tilePixel?_eq vram hstart]
    by_cases hcorner : 0 ≤ p - x ∧ 0 ≤ q - y
    · rw [if_pos hcorner]
      split
      case isTrue hshown =>
        rw [if_pos ⟨by omega, by omega, hshown.2.2.2.2.2⟩, Option.getD_some]
      case isFalse hhidden =>
        rw [if_neg, Option.getD_none]
        rintro ⟨hright, hbottom, hroom⟩
        exact hhidden ⟨hinside, by omega, by omega, by omega, by omega, hroom⟩
    · rw [if_neg hcorner, if_neg (by omega)]
  · rw [drawTiles, if_pos (Nat.lt_of_not_le hstart)]
    simp [tilePixel?, hstart]

end TileConsole.Screen
