import Mathlib.Data.Finset.Card
import TileConsole.Picture.Palette

namespace TileConsole

namespace Color

-- The first channel in which two colours differ decides.
def Precedes (c d : Color) : Prop :=
  c.red < d.red ∨ c.red = d.red ∧ (c.green < d.green ∨ c.green = d.green ∧
    (c.blue < d.blue ∨ c.blue = d.blue ∧ c.alpha < d.alpha))

-- The channels as the digits of one number.
def key (c : Color) : Nat :=
  ((c.red.toNat * 65536 + c.green.toNat) * 65536 + c.blue.toNat) * 65536 + c.alpha.toNat

theorem digits_lt (c : Color) :
    c.green.toNat < 65536 ∧ c.blue.toNat < 65536 ∧ c.alpha.toNat < 65536 :=
  ⟨c.green.toNat_lt, c.blue.toNat_lt, c.alpha.toNat_lt⟩

theorem key_lt_iff (c d : Color) : c.key < d.key ↔ c.Precedes d := by
  have hc := c.digits_lt
  have hd := d.digits_lt
  simp only [key, Precedes, UInt16.lt_iff_toNat_lt, ← UInt16.toNat_inj]
  omega

theorem key_inj {c d : Color} : c.key = d.key ↔ c = d := by
  constructor
  · intro h
    have hc := c.digits_lt
    have hd := d.digits_lt
    obtain ⟨red, green, blue, alpha⟩ := c
    obtain ⟨red', green', blue', alpha'⟩ := d
    simp only [key, mk.injEq, ← UInt16.toNat_inj] at *
    omega
  · rintro rfl
    rfl

theorem le_iff (c d : Color) : c.le d ↔ c.key ≤ d.key := by
  have hc := c.digits_lt
  have hd := d.digits_lt
  unfold le
  split_ifs with hred hgreen hblue <;>
    simp only [key, ne_eq, ← UInt16.toNat_inj, decide_eq_true_eq, UInt16.lt_iff_toNat_lt,
      UInt16.le_iff_toNat_le] at * <;> omega

end Color

namespace ColorCount

-- Five comparisons, of which the first that is not a tie decides.
def compareRank (a b : ColorCount) : Ordering :=
  (compare b.count a.count).then <| (compare a.color.red b.color.red).then <|
    (compare a.color.green b.color.green).then <| (compare a.color.blue b.color.blue).then <|
      compare a.color.alpha b.color.alpha

theorem ranksBefore_iff (a b : ColorCount) :
    a.ranksBefore b ↔
      b.count < a.count ∨ a.count = b.count ∧ a.color.key ≤ b.color.key := by
  unfold ranksBefore
  split_ifs with hcount
  · simp [hcount]
  · simp only [ne_eq, not_not] at hcount
    rw [Color.le_iff]
    omega

theorem isLE_compareRank (a b : ColorCount) : (a.compareRank b).isLE ↔ a.ranksBefore b := by
  have ha := a.color.digits_lt
  have hb := b.color.digits_lt
  rw [ranksBefore_iff]
  simp only [compareRank, Ordering.isLE_then_iff_or, Std.compare_eq_lt, Std.compare_eq_iff_eq,
    Std.isLE_compare, Color.key, UInt16.lt_iff_toNat_lt, UInt16.le_iff_toNat_le,
    ← UInt16.toNat_inj]
  omega

-- The colours of a list, each once with its number of pixels, in some order.
structure Counts (counted : List ColorCount) (colors : List Color) : Prop where
  nodup : (counted.map color).Nodup
  mem_iff : ∀ entry, entry ∈ counted ↔
    entry.color ∈ colors ∧ entry.count = colors.count entry.color

namespace Counts

variable {counted others : List ColorCount} {colors pixels : List Color} {c : Color}

theorem nil : Counts [] [] := ⟨List.nodup_nil, by simp⟩

-- Neither the order of the pixels nor that of the counted colours matters.
theorem of_perm (h : Counts counted colors) (hcounted : others.Perm counted)
    (hcolors : pixels.Perm colors) : Counts others pixels where
  nodup := ((hcounted.map color).nodup_iff).mpr h.nodup
  mem_iff entry := by
    rw [hcounted.mem_iff, hcolors.mem_iff, hcolors.count_eq]
    exact h.mem_iff entry

theorem perm (h : Counts counted colors) (h' : Counts others colors) : counted.Perm others := by
  rw [List.perm_ext_iff_of_nodup h.nodup.of_map h'.nodup.of_map]
  intro entry
  rw [h.mem_iff, h'.mem_iff]

theorem cons_of_notMem (h : Counts counted colors) (hc : c ∉ colors) :
    Counts (⟨c, 1⟩ :: counted) (c :: colors) where
  nodup := by
    rw [List.map_cons, List.nodup_cons]
    refine ⟨?_, h.nodup⟩
    intro hmem
    obtain ⟨entry, hentry, rfl⟩ := List.mem_map.mp hmem
    exact hc ((h.mem_iff entry).mp hentry).1
  mem_iff := by
    rintro ⟨d, n⟩
    rw [List.mem_cons, h.mem_iff, mk.injEq, List.mem_cons]
    by_cases hd : d = c
    · subst hd
      simp [hc, List.count_eq_zero_of_not_mem hc]
    · simp [hd, List.count_cons_of_ne (Ne.symm hd)]

theorem cons_of_color_eq {n : Nat} (h : Counts (⟨c, n⟩ :: counted) colors) :
    Counts (⟨c, n + 1⟩ :: counted) (c :: colors) where
  nodup := h.nodup
  mem_iff := by
    rintro ⟨d, m⟩
    have hentry := h.mem_iff ⟨d, m⟩
    have hcount : n = colors.count c := ((h.mem_iff ⟨c, n⟩).mp List.mem_cons_self).2
    have hfresh := (List.nodup_cons.mp h.nodup).1
    rw [List.mem_cons, mk.injEq] at *
    rw [List.mem_cons]
    by_cases hd : d = c
    · subst hd
      have hnone : ⟨d, m⟩ ∉ counted := fun hmem => hfresh (List.mem_map.mpr ⟨_, hmem, rfl⟩)
      simp [hnone, ← hcount]
    · simp only [hd, false_and, false_or] at hentry ⊢
      rw [hentry, List.count_cons_of_ne (Ne.symm hd)]

end Counts

theorem add_of_notMem {c : Color} {counted : List ColorCount} (h : c ∉ counted.map color) :
    add c counted = ⟨c, 1⟩ :: counted := by
  cases counted with
  | nil => rfl
  | cons first rest =>
    rw [add, if_neg]
    rintro rfl
    exact h List.mem_cons_self

theorem head?_foldr_add (colors : List Color) :
    (colors.foldr add []).head?.map color = colors.head? := by
  cases colors with
  | nil => rfl
  | cons c rest =>
    rw [List.foldr_cons, List.head?_cons]
    cases rest.foldr add [] with
    | nil => rfl
    | cons first others =>
      rw [add]
      split <;> rfl

-- By induction on the sorted colours. A colour that comes again is the one that
-- was counted last.
theorem counts_foldr_add {colors : List Color} (h : colors.Pairwise fun c d => c.le d) :
    Counts (colors.foldr add []) colors := by
  induction colors with
  | nil => exact .nil
  | cons c rest ih =>
    obtain ⟨hleast, hsorted⟩ := List.pairwise_cons.mp h
    have hcounts := ih hsorted
    rw [List.foldr_cons]
    by_cases hc : c ∈ rest
    · cases hcounted : rest.foldr add [] with
      | nil =>
        have hnone := (hcounts.mem_iff ⟨c, rest.count c⟩).mpr ⟨hc, rfl⟩
        rw [hcounted] at hnone
        exact absurd hnone List.not_mem_nil
      | cons first others =>
        obtain ⟨d, n⟩ := first
        have hhead := head?_foldr_add rest
        rw [hcounted] at hhead
        obtain ⟨tail, rfl⟩ := List.head?_eq_some_iff.mp hhead.symm
        have hd : c = d := by
          rcases List.mem_cons.mp hc with hsame | htail
          · exact hsame
          · have hle := (Color.le_iff c d).mp (hleast d List.mem_cons_self)
            have hge := (Color.le_iff d c).mp ((List.pairwise_cons.mp hsorted).1 c htail)
            exact Color.key_inj.mp (Nat.le_antisymm hle hge)
        subst hd
        rw [hcounted] at hcounts
        rw [add, if_pos rfl]
        exact hcounts.cons_of_color_eq
    · rw [add_of_notMem]
      · exact hcounts.cons_of_notMem hc
      · intro hmem
        obtain ⟨entry, hentry, rfl⟩ := List.mem_map.mp hmem
        exact hc ((hcounts.mem_iff entry).mp hentry).1

theorem counts_tally (colors : List Color) : Counts (tally colors) colors := by
  have htrans : ∀ a b c : Color, a.le b → b.le c → a.le c := by
    intro a b c hab hbc
    rw [Color.le_iff] at *
    exact Nat.le_trans hab hbc
  have htotal : ∀ a b : Color, a.le b || b.le a := by
    intro a b
    rw [Bool.or_eq_true, Color.le_iff, Color.le_iff]
    exact Nat.le_total _ _
  exact (counts_foldr_add (List.pairwise_mergeSort htrans htotal colors)).of_perm (.refl _)
    (List.mergeSort_perm colors _).symm

theorem ranksBefore_trans (a b c : ColorCount) (hab : a.ranksBefore b) (hbc : b.ranksBefore c) :
    a.ranksBefore c := by
  rw [ranksBefore_iff] at *
  omega

theorem ranksBefore_total (a b : ColorCount) : a.ranksBefore b || b.ranksBefore a := by
  rw [Bool.or_eq_true, ranksBefore_iff, ranksBefore_iff]
  omega

theorem ranksBefore_antisymm (a b : ColorCount) (hab : a.ranksBefore b) (hba : b.ranksBefore a) :
    a = b := by
  rw [ranksBefore_iff] at *
  obtain ⟨c, m⟩ := a
  obtain ⟨d, n⟩ := b
  obtain rfl : c = d := Color.key_inj.mp (by dsimp only at *; omega)
  obtain rfl : m = n := by dsimp only at *; omega
  rfl

-- The counted colours with the most frequent ones first.
def ranking (colors : List Color) : List ColorCount :=
  (tally colors).mergeSort ranksBefore

theorem counts_ranking (colors : List Color) : Counts (ranking colors) colors :=
  (counts_tally colors).of_perm (List.mergeSort_perm _ _) (.refl _)

theorem pairwise_ranking (colors : List Color) :
    (ranking colors).Pairwise fun a b => a.ranksBefore b :=
  List.pairwise_mergeSort ranksBefore_trans ranksBefore_total _

-- No two counted colours tie, so there is one ranking. It can be made from any
-- order of the pixels and of the counted colours.
theorem eq_ranking {ranked : List ColorCount} {colors : List Color} (h : Counts ranked colors)
    (hsorted : ranked.Pairwise fun a b => (a.compareRank b).isLE) : ranked = ranking colors := by
  simp only [isLE_compareRank] at hsorted
  exact List.Perm.eq_of_pairwise (fun a b _ _ => ranksBefore_antisymm a b) hsorted
    (pairwise_ranking colors) (h.perm (counts_ranking colors))

end ColorCount

-- More pixels have the first colour, or as many and it comes first in the order
-- of the channels.
def Outranks (colors : List Color) (c d : Color) : Prop :=
  colors.count d < colors.count c ∨ colors.count c = colors.count d ∧ c.Precedes d

section Palette

open ColorCount

variable (colors : List Color)

theorem rankColors_eq : rankColors colors = ((ranking colors).take maxColors).map color := rfl

theorem pairwise_outranks :
    (ranking colors).Pairwise fun a b => Outranks colors a.color b.color := by
  have hcounts := counts_ranking colors
  have hdistinct := List.pairwise_map.mp hcounts.nodup
  refine ((pairwise_ranking colors).and hdistinct).imp_of_mem ?_
  rintro a b ha hb ⟨hranks, hne⟩
  have hne' : a.color.key ≠ b.color.key := fun hkey => hne (Color.key_inj.mp hkey)
  rw [ranksBefore_iff, ((hcounts.mem_iff a).mp ha).2, ((hcounts.mem_iff b).mp hb).2] at hranks
  rw [Outranks, ← Color.key_lt_iff]
  omega

theorem mem_map_color_ranking (c : Color) : c ∈ (ranking colors).map color ↔ c ∈ colors := by
  have hcounts := counts_ranking colors
  rw [List.mem_map]
  constructor
  · rintro ⟨entry, hentry, rfl⟩
    exact ((hcounts.mem_iff entry).mp hentry).1
  · intro hc
    exact ⟨⟨c, colors.count c⟩, (hcounts.mem_iff _).mpr ⟨hc, rfl⟩, rfl⟩

theorem length_ranking : (ranking colors).length = colors.toFinset.card := by
  have hsame : ((ranking colors).map color).toFinset = colors.toFinset := by
    ext c
    rw [List.mem_toFinset, List.mem_toFinset, mem_map_color_ranking]
  rw [← hsame, List.toFinset_card_of_nodup (counts_ranking colors).nodup, List.length_map]

-- What makes a list of colours the palette of some pixels.
structure Ranks (palette colors : List Color) : Prop where
  length_eq : palette.length = min 16 colors.toFinset.card
  nodup : palette.Nodup
  subset : ∀ c ∈ palette, c ∈ colors
  ordered : palette.Pairwise (Outranks colors)
  outranks : ∀ c ∈ palette, ∀ d ∈ colors, d ∉ palette → Outranks colors c d

theorem ranks_rankColors : Ranks (rankColors colors) colors where
  length_eq := by
    rw [rankColors_eq, List.length_map, List.length_take, length_ranking]
    rfl
  nodup := (counts_ranking colors).nodup.sublist ((List.take_sublist _ _).map _)
  subset := by
    intro c hc
    exact (mem_map_color_ranking colors c).mp (((List.take_sublist _ _).map _).subset hc)
  ordered := List.pairwise_map.mpr ((pairwise_outranks colors).sublist (List.take_sublist _ _))
  outranks := by
    intro c hc d hd hout
    have hall := pairwise_outranks colors
    have hmem := (mem_map_color_ranking colors d).mpr hd
    rw [← List.take_append_drop maxColors (ranking colors)] at hall hmem
    rw [List.map_append, List.mem_append] at hmem
    obtain ⟨entry, hentry, rfl⟩ := List.mem_map.mp hc
    obtain ⟨other, hother, rfl⟩ := List.mem_map.mp (hmem.resolve_left hout)
    exact (List.pairwise_append.mp hall).2.2 entry hentry other hother

-- The order of the pixels does not matter.
theorem rankColors_of_perm {pixels : List Color} (h : pixels.Perm colors) :
    rankColors pixels = rankColors colors := by
  have hcounts := (counts_ranking pixels).of_perm (.refl _) h.symm
  have hsorted : (ranking pixels).Pairwise fun a b => (a.compareRank b).isLE := by
    simpa only [isLE_compareRank] using pairwise_ranking pixels
  rw [rankColors_eq, rankColors_eq, eq_ranking hcounts hsorted]

end Palette

namespace Picture

-- The same picture at another place in the plane.
def moved (x y : Int) : Picture → Picture
  | indexed picture => indexed
    { picture with frame := { picture.frame with left := x, top := y } }
  | direct picture => direct
    { picture with frame := { picture.frame with left := x, top := y } }

theorem colors_moved (picture : Picture) (x y : Int) :
    (picture.moved x y).colors = picture.colors := by
  cases picture <;> rfl

theorem palette_of_colors {picture : Picture} {colors : List Color}
    (h : picture.colors = .ok colors) : picture.palette = .ok (rankColors colors) := by
  rw [palette, h]
  rfl

-- The palette of a picture is the one ranking of its colours, cut at sixteen. It
-- depends on nothing but how often each colour occurs. `counted` is any order in
-- which the counts can be visited, and `ranked` is any way to sort them.
theorem palette_is_ranking {picture : Picture} {colors : List Color}
    (h : picture.colors = .ok colors) :
    ∃ palette, picture.palette = .ok palette ∧ Ranks palette colors ∧
      (∀ (other : Picture) (pixels : List Color), other.colors = .ok pixels →
        pixels.Perm colors → other.palette = .ok palette) ∧
      (∀ x y, (picture.moved x y).palette = .ok palette) ∧
      ∀ counted ranked : List ColorCount, ColorCount.Counts counted colors →
        ranked.Perm counted → ranked.Pairwise (fun a b => (a.compareRank b).isLE) →
          (ranked.take 16).map ColorCount.color = palette := by
  refine ⟨_, palette_of_colors h, ranks_rankColors colors, ?_, ?_, ?_⟩
  · intro other pixels hother hperm
    rw [palette_of_colors hother, rankColors_of_perm colors hperm]
  · intro x y
    exact palette_of_colors ((picture.colors_moved x y).trans h)
  · intro counted ranked hcounts hperm hsorted
    rw [ColorCount.eq_ranking (hcounts.of_perm hperm (.refl _)) hsorted]
    rfl

-- Two colours with two pixels each, and one with a single pixel.
theorem palette_is_ranking_tied :
    let picture : Picture := .direct ⟨⟨0, 0, 5, 1⟩, .gray, #[7, 3, 5, 7, 3]⟩
    let level (n : Nat) : Color := Color.grey (n * 257)
    picture.colors = .ok [level 7, level 3, level 5, level 7, level 3] ∧
      picture.palette = .ok [level 3, level 7, level 5] := by
  intro picture level
  have hcolors : picture.colors = .ok [level 7, level 3, level 5, level 7, level 3] := by decide
  obtain ⟨palette, hpalette, -, -, -, hranked⟩ := palette_is_ranking hcolors
  have hcounts : ColorCount.Counts [⟨level 5, 1⟩, ⟨level 3, 2⟩, ⟨level 7, 2⟩]
      [level 5, level 3, level 3, level 7, level 7] := by
    refine .cons_of_notMem (.cons_of_color_eq (.cons_of_notMem (.cons_of_color_eq
      (.cons_of_notMem .nil ?_)) ?_)) ?_ <;> decide
  have hfirst := hranked _ [⟨level 3, 2⟩, ⟨level 7, 2⟩, ⟨level 5, 1⟩]
    (hcounts.of_perm (.refl _) (by decide)) (by decide) (by decide)
  refine ⟨hcolors, hpalette.trans (congrArg Except.ok ?_)⟩
  exact hfirst.symm

end Picture

end TileConsole
