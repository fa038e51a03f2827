import TileConsole.Proofs.Bytes
import TileConsole.Proofs.Picture.Ranking

namespace TileConsole

namespace Color

-- A quarter of the squared difference in 32-bit words, where the difference, its
-- square and sums may wrap around.
def channelDistance32 (u v : UInt16) : UInt32 :=
  ((u.toUInt32 - v.toUInt32) * (u.toUInt32 - v.toUInt32)) >>> 2

def distance32 (c d : Color) : UInt32 :=
  channelDistance32 c.red d.red + channelDistance32 c.green d.green +
    channelDistance32 c.blue d.blue + channelDistance32 c.alpha d.alpha

section Channels

variable (u v : UInt16)

-- By how much two channels differ. One of the two differences is zero.
def gap : Nat :=
  (u.toNat - v.toNat) + (v.toNat - u.toNat)

theorem gap_le : gap u v ≤ 65535 := by
  have hu := u.toNat_lt
  have hv := v.toNat_lt
  unfold gap
  omega

theorem channelDistance_eq : channelDistance u v = gap u v * gap u v / 4 := by
  have hgap : (if u ≤ v then v.toNat - u.toNat else u.toNat - v.toNat) = gap u v := by
    simp only [gap, UInt16.le_iff_toNat_le]
    split <;> omega
  rw [channelDistance, hgap]

theorem channelDistance_le : channelDistance u v ≤ 65535 * 65535 / 4 := by
  rw [channelDistance_eq]
  exact Nat.div_le_div_right (Nat.mul_le_mul (gap_le u v) (gap_le u v))

theorem channelDistance_eq_zero_iff : channelDistance u v = 0 ↔ gap u v ≤ 1 := by
  rw [channelDistance_eq]
  constructor
  · intro hzero
    apply Nat.le_of_not_lt
    intro hfar
    have hsquare : 2 * 2 ≤ gap u v * gap u v := Nat.mul_le_mul hfar hfar
    omega
  · intro hnear
    have hsquare : gap u v * gap u v ≤ 1 * 1 := Nat.mul_le_mul hnear hnear
    omega

-- The square of a difference is that of its negative, so the larger channel can
-- be taken first. Then nothing wraps around.
theorem toNat_channelDistance32 : (channelDistance32 u v).toNat = channelDistance u v := by
  have hordered : ∀ u v : UInt16, u ≤ v →
      (((v.toUInt32 - u.toUInt32) * (v.toUInt32 - u.toUInt32)) >>> 2).toNat =
        gap u v * gap u v / 4 := by
    intro u v h
    have hle : u.toUInt32 ≤ v.toUInt32 := by
      rw [UInt32.le_iff_toNat_le, UInt16.toNat_toUInt32, UInt16.toNat_toUInt32]
      exact UInt16.le_iff_toNat_le.mp h
    have hgap : v.toNat - u.toNat = gap u v := by
      rw [UInt16.le_iff_toNat_le] at h
      unfold gap
      omega
    have hsquare := Nat.mul_le_mul (gap_le u v) (gap_le u v)
    rw [UInt32.toNat_shiftRight, UInt32.toNat_mul, UInt32.toNat_sub_of_le _ _ hle,
      UInt16.toNat_toUInt32, UInt16.toNat_toUInt32, hgap, Nat.mod_eq_of_lt (by omega)]
    exact Nat.shiftRight_eq_div_pow _ 2
  rw [channelDistance_eq, channelDistance32]
  rcases UInt16.le_total u v with h | h
  · have hsquare : ∀ a b : UInt32, (a - b) * (a - b) = (b - a) * (b - a) := by grind
    rw [hsquare]
    exact hordered u v h
  · have hgap : gap u v = gap v u := Nat.add_comm _ _
    rw [hgap]
    exact hordered v u h

end Channels

theorem toNat_distance32 (c d : Color) : (c.distance32 d).toNat = c.distance d := by
  have hred := channelDistance_le c.red d.red
  have hgreen := channelDistance_le c.green d.green
  have hblue := channelDistance_le c.blue d.blue
  have halpha := channelDistance_le c.alpha d.alpha
  simp only [distance32, distance, UInt32.toNat_add, toNat_channelDistance32]
  omega

-- Two colours differ by at most one in every channel.
def Near (c d : Color) : Prop :=
  gap c.red d.red ≤ 1 ∧ gap c.green d.green ≤ 1 ∧ gap c.blue d.blue ≤ 1 ∧
    gap c.alpha d.alpha ≤ 1

theorem distance_eq_zero_iff (c d : Color) : c.distance d = 0 ↔ c.Near d := by
  simp only [distance, Nat.add_eq_zero_iff, channelDistance_eq_zero_iff, Near, and_assoc]

-- Every channel is made of 8 bits.
def Wide (c : Color) : Prop :=
  257 ∣ c.red.toNat ∧ 257 ∣ c.green.toNat ∧ 257 ∣ c.blue.toNat ∧ 257 ∣ c.alpha.toNat

theorem Near.eq {c d : Color} (h : c.Near d) (hc : c.Wide) (hd : d.Wide) : c = d := by
  obtain ⟨red, green, blue, alpha⟩ := c
  obtain ⟨red', green', blue', alpha'⟩ := d
  simp only [Near, Wide, gap, mk.injEq, ← UInt16.toNat_inj] at *
  omega

end Color

-- The first of the palette entries that are least unlike a colour.
def IsNearest (palette : List Color) (color : Color) (index : Nat) (entry : Color) : Prop :=
  palette[index]? = some entry ∧ ∀ k other, palette[k]? = some other →
    color.distance32 entry ≤ color.distance32 other ∧
      (k < index → color.distance32 entry < color.distance32 other)

theorem exists_isNearest {palette : List Color} (h : palette ≠ []) (color : Color) :
    ∃ entry, IsNearest palette color (nearest palette color) entry := by
  obtain ⟨hindex, hleast, hfirst⟩ := (List.minIdxOn_eq_iff h).mp
    (show palette.minIdxOn color.distance h = nearest palette color by
      rw [nearest, List.minIdxOn?_eq_some_minIdxOn h, Option.getD_some])
  refine ⟨_, List.getElem?_eq_getElem hindex, ?_⟩
  intro k other hother
  obtain ⟨hk, rfl⟩ := List.getElem?_eq_some_iff.mp hother
  rw [UInt32.le_iff_toNat_le, UInt32.lt_iff_toNat_lt, Color.toNat_distance32,
    Color.toNat_distance32]
  exact ⟨hleast k hk, hfirst k⟩

-- What is taken for granted of a drawing: each colour becomes the first of the
-- palette entries that are least unlike it.
structure DrawsNearest (draw : Drawing) : Prop where
  length_eq : ∀ palette colors, (draw palette colors).length = colors.length
  isNearest : ∀ palette colors : List Color, palette ≠ [] → palette.length ≤ 256 →
    ∀ (n : Nat) (color : Color), colors[n]? = some color → ∃ (index : UInt8) (entry : Color),
      (draw palette colors)[n]? = some index ∧ IsNearest palette color index.toNat entry

theorem drawsNearest_drawNearest : DrawsNearest drawNearest where
  length_eq palette colors := List.length_map _
  isNearest := by
    intro palette colors hne hlength n color hn
    obtain ⟨entry, hentry⟩ := exists_isNearest hne color
    have hlt := (List.getElem?_eq_some_iff.mp hentry.1).1
    have hindex : (UInt8.ofNat (nearest palette color)).toNat = nearest palette color := by
      rw [UInt8.toNat_ofNat']
      exact Nat.mod_eq_of_lt (by omega)
    refine ⟨UInt8.ofNat (nearest palette color), entry, ?_, ?_⟩
    · rw [drawNearest, List.getElem?_map, hn]
      rfl
    · rw [hindex]
      exact hentry

-- A colour of the palette is at no distance from its nearest entry.
theorem IsNearest.near {palette : List Color} {color entry : Color} {index : Nat}
    (h : IsNearest palette color index entry) (hmem : color ∈ palette) : color.Near entry := by
  obtain ⟨k, hk, hcolor⟩ := List.getElem_of_mem hmem
  have hle := (h.2 k color (List.getElem?_eq_some_iff.mpr ⟨hk, hcolor⟩)).1
  have hself : color.distance color = 0 :=
    (Color.distance_eq_zero_iff color color).mpr (by simp [Color.Near, Color.gap])
  rw [UInt32.le_iff_toNat_le, Color.toNat_distance32, Color.toNat_distance32, hself] at hle
  exact (Color.distance_eq_zero_iff color entry).mp (Nat.le_zero.mp hle)

theorem length_of_mapM_eq_ok {α β ε : Type} {f : α → Except ε β} {xs : List α} {ys : List β}
    (h : xs.mapM f = .ok ys) : ys.length = xs.length := by
  induction xs generalizing ys with
  | nil =>
    rw [List.mapM_nil] at h
    cases h
    rfl
  | cons x xs ih =>
    rw [List.mapM_cons] at h
    cases hx : f x with
    | error fault => simp [hx, bind, Except.bind] at h
    | ok y =>
      cases hrest : xs.mapM f with
      | error fault => simp [hx, hrest, bind, Except.bind] at h
      | ok rest =>
        simp only [hx, hrest, bind, Except.bind, pure, Except.pure, Except.ok.injEq] at h
        rw [← h, List.length_cons, List.length_cons, ih hrest]

namespace Picture

variable {draw : Drawing} {picture : Picture} {colors : List Color}

theorem length_colors (h : picture.colors = .ok colors) : colors.length = picture.frame.area := by
  cases picture with
  | direct picture =>
    rw [Picture.colors, DirectPicture.colors] at h
    split at h
    · cases h
    · rw [← Except.ok.inj h, List.length_map, List.length_range, frame]
  | indexed picture =>
    rw [Picture.colors, IndexedPicture.colors, IndexedPicture.indexes] at h
    split at h
    case h_1 hindexes =>
      cases h
    case h_2 numbers hindexes =>
      split at hindexes
      · cases hindexes
      · rw [length_of_mapM_eq_ok h, ← Except.ok.inj hindexes, List.length_take,
          Array.length_toList, frame]
        omega

-- The palette of a reduced picture.
def usedPalette (colors : List Color) : List Color :=
  if rankColors colors = [] then [Color.black] else rankColors colors

theorem usedPalette_ne_nil (colors : List Color) : usedPalette colors ≠ [] := by
  unfold usedPalette
  split
  · simp
  · assumption

theorem usedPalette_of_mem {c : Color} (h : c ∈ rankColors colors) :
    usedPalette colors = rankColors colors :=
  if_neg (List.ne_nil_of_mem h)

theorem length_usedPalette_le (colors : List Color) : (usedPalette colors).length ≤ 16 := by
  unfold usedPalette
  split
  · simp
  · rw [(ranks_rankColors colors).length_eq]
    exact Nat.min_le_left _ _

-- All colours are chosen when there are few.
theorem mem_rankColors_of_card_le (h : colors.toFinset.card ≤ 16) {c : Color} (hc : c ∈ colors) :
    c ∈ rankColors colors := by
  have hall : (ColorCount.ranking colors).take maxColors = ColorCount.ranking colors := by
    rw [List.take_of_length_le]
    rw [length_ranking]
    exact h
  rw [rankColors_eq, hall]
  exact (mem_map_color_ranking colors c).mpr hc

theorem quantizeWith_eq (hcolors : picture.colors = .ok colors)
    (hmany : ∀ indexed, picture = .indexed indexed → 16 < indexed.palette.length)
    (hcolumns : 0 ≤ picture.frame.columns) (hrows : 0 ≤ picture.frame.rows) :
    picture.quantizeWith draw = .ok (reduce draw picture.frame colors) := by
  have hfitting : picture.fitting? = none := by
    cases picture with
    | direct picture => rfl
    | indexed indexed => exact if_neg (Nat.not_le.mpr (hmany indexed rfl))
  rw [quantizeWith, hfitting]
  dsimp only
  rw [hcolors]
  exact if_neg (by omega)

-- Each pixel of a reduced picture names its nearest entry, in four bits.
theorem exists_pixel_reduce (hdraw : DrawsNearest draw) {n : Nat} {color : Color} (frame : Frame)
    (h : colors[n]? = some color) :
    ∃ (index : UInt8) (entry : Color), (reduce draw frame colors).pixels[n]? = some index ∧
      IsNearest (usedPalette colors) color index.toNat entry ∧
      index.toNat < (usedPalette colors).length ∧ index &&& 0x0F = index := by
  have hlength := length_usedPalette_le colors
  obtain ⟨index, entry, hindex, hentry⟩ := hdraw.isNearest (usedPalette colors) colors
    (usedPalette_ne_nil colors) (by omega) n color h
  have hlt := (List.getElem?_eq_some_iff.mp hentry.1).1
  refine ⟨index, entry, ?_, hentry, hlt, ?_⟩
  · rw [reduce, List.getElem?_toArray]
    exact hindex
  · apply UInt8.toNat_inj.mp
    rw [Bytes.toNat_low]
    omega

-- Different colours of 8-bit channels are too far apart to be mixed up.
theorem eq_of_isNearest {color entry : Color} {index : Nat}
    (h : IsNearest (usedPalette colors) color index entry) (hchosen : color ∈ rankColors colors)
    (hwide : ∀ c ∈ colors, c.Wide) : entry = color := by
  have hsubset := (ranks_rankColors colors).subset
  rw [usedPalette_of_mem hchosen] at h
  have hentry := hwide entry (hsubset entry (List.mem_of_getElem? h.1))
  exact ((h.near hchosen).eq (hwide color (hsubset color hchosen)) hentry).symm

-- Reducing a picture keeps the colours of its palette, up to what the distance
-- cannot see.
theorem quantize_keeps_colors (hdraw : DrawsNearest draw) (hcolors : picture.colors = .ok colors)
    (hmany : ∀ indexed, picture = .indexed indexed → 16 < indexed.palette.length)
    (hcolumns : 0 ≤ picture.frame.columns) (hrows : 0 ≤ picture.frame.rows) :
    ∃ (result : IndexedPicture) (chosen : List Color),
      picture.quantizeWith draw = .ok result ∧ picture.palette = .ok chosen ∧
      result.frame = picture.frame ∧
      (1 ≤ result.palette.length ∧ result.palette.length ≤ 16) ∧
      result.pixels.size = picture.frame.area ∧
      (∀ (n : Nat) (color : Color), colors[n]? = some color →
        ∃ (index : UInt8) (entry : Color), result.pixels[n]? = some index ∧
          IsNearest result.palette color index.toNat entry ∧
          index.toNat < result.palette.length ∧ index &&& 0x0F = index ∧
          (color ∈ chosen → color.Near entry ∧ ((∀ c ∈ colors, c.Wide) → entry = color))) ∧
      (colors.toFinset.card ≤ 16 → ∀ color ∈ colors, color ∈ chosen) ∧
      (Picture.indexed result).quantizeWith draw = .ok result := by
  have hlength := length_usedPalette_le colors
  have hquantize := @quantizeWith_eq draw _ _ hcolors hmany hcolumns hrows
  refine ⟨_, _, hquantize, palette_of_colors hcolors, rfl, ⟨?_, hlength⟩, ?_, ?_, ?_, ?_⟩
  · exact List.length_pos_of_ne_nil (usedPalette_ne_nil colors)
  · rw [← length_colors hcolors, reduce, List.size_toArray, hdraw.length_eq]
  · intro n color hn
    obtain ⟨index, entry, hindex, hnearest, hlt, hmask⟩ :=
      exists_pixel_reduce hdraw picture.frame hn
    refine ⟨index, entry, hindex, hnearest, hlt, hmask, ?_⟩
    intro hchosen
    refine ⟨hnearest.near ?_, eq_of_isNearest hnearest hchosen⟩
    rw [usedPalette_of_mem hchosen]
    exact hchosen
  · intro hfew color hcolor
    exact mem_rankColors_of_card_le hfew hcolor
  · have hfitting : (Picture.indexed (reduce draw picture.frame colors)).fitting? =
        some (reduce draw picture.frame colors) := if_pos hlength
    rw [quantizeWith, hfitting]

-- Two black pixels and one that is almost black, which has an entry of its own.
theorem quantize_keeps_colors_almost_black :
    let picture : Picture := .direct ⟨⟨0, 0, 3, 1⟩, .rgba64,
      #[0, 0, 0, 0, 0, 0, 255, 255, 0, 0, 0, 0, 0, 0, 255, 255, 0, 1, 0, 0, 0, 0, 255, 255]⟩
    ∃ (result : IndexedPicture) (index : UInt8) (entry : Color),
      picture.quantize = .ok result ∧ result.pixels[2]? = some index ∧
      result.palette[index.toNat]? = some entry ∧ Color.Near ⟨1, 0, 0, 65535⟩ entry ∧
      (Picture.indexed result).quantize = .ok result := by
  intro picture
  have hcolors : picture.colors = .ok [.black, .black, ⟨1, 0, 0, 65535⟩] := by decide
  obtain ⟨result, chosen, hquantize, -, -, -, -, hpixels, hfew, hagain⟩ :=
    quantize_keeps_colors drawsNearest_drawNearest hcolors
      (fun indexed h => by simp [picture] at h) (by decide) (by decide)
  obtain ⟨index, entry, hindex, hnearest, -, -, hkept⟩ := hpixels 2 _ rfl
  have hcard : [Color.black, .black, ⟨1, 0, 0, 65535⟩].toFinset.card ≤ 16 :=
    Nat.le_trans (List.toFinset_card_le _) (by decide)
  have hchosen := hfew hcard ⟨1, 0, 0, 65535⟩ (by decide)
  exact ⟨result, index, entry, hquantize, hindex, hnearest.1, (hkept hchosen).1, hagain⟩

-- A strip without pixels that is too wide to be measured cannot be reduced, though
-- none of its colours is missing.
theorem quantize_too_wide :
    let strip : IndexedPicture :=
      ⟨⟨-1, 0, 0x8000000000000000, 0⟩, List.replicate 17 .black, #[]⟩
    (Picture.indexed strip).colors = .ok [] ∧ 16 < strip.palette.length ∧
      ¬∃ result, (Picture.indexed strip).quantize = .ok result := by
  intro strip
  have hquantize : (Picture.indexed strip).quantize =
      .error (.hugeFrame IndexedPicture.kind) := by decide
  refine ⟨by decide, by decide, ?_⟩
  rw [hquantize]
  rintro ⟨result, hresult⟩
  cases hresult

end Picture

end TileConsole
