import TileConsole.Picture.Basic

namespace TileConsole

-- A tile names its colours in four bits.
def maxColors : Nat := 16

-- A colour and the number of pixels that have it.
structure ColorCount where
  color : Color
  count : Nat
deriving DecidableEq, Repr

namespace ColorCount

-- Adds a pixel in front of counted ones whose colours are in order.
def add (color : Color) : List ColorCount → List ColorCount
  | [] => [⟨color, 1⟩]
  | first :: rest =>
    if first.color = color then ⟨color, first.count + 1⟩ :: rest
    else ⟨color, 1⟩ :: first :: rest

-- Each colour once, with its number of pixels.
def tally (colors : List Color) : List ColorCount :=
  (colors.mergeSort Color.le).foldr add []

-- Frequent colours come first, and equally frequent ones in the order of
-- their channels.
def ranksBefore (a b : ColorCount) : Bool :=
  if a.count ≠ b.count then b.count < a.count else a.color.le b.color

end ColorCount

-- The most frequent of some colours, at most as many as a tile can name.
def rankColors (colors : List Color) : List Color :=
  (((ColorCount.tally colors).mergeSort ColorCount.ranksBefore).take maxColors).map
    ColorCount.color

-- The number of the first palette entry that is least unlike a colour.
def nearest (palette : List Color) (color : Color) : Nat :=
  (palette.minIdxOn? color.distance).getD 0

-- How colours are drawn with a palette: for each of them in turn, the number of a
-- palette entry.
abbrev Drawing := (palette colors : List Color) → List UInt8

def drawNearest : Drawing :=
  fun palette colors => colors.map fun color => UInt8.ofNat (nearest palette color)

namespace Picture

-- The most frequent colours of a picture.
def palette (picture : Picture) : Except PictureFault (List Color) :=
  picture.colors.map rankColors

-- A picture whose palette a tile can name.
def fitting? : Picture → Option IndexedPicture
  | indexed picture => if picture.palette.length ≤ maxColors then some picture else none
  | direct _ => none

-- Draws colours with the most frequent ones. A picture without pixels gets a
-- black palette entry.
def reduce (draw : Drawing) (frame : Frame) (colors : List Color) : IndexedPicture :=
  let ranked := rankColors colors
  let palette := if ranked = [] then [Color.black] else ranked
  ⟨frame, palette, (draw palette colors).toArray⟩

-- Turns a picture into one whose palette a tile can name. One that already has
-- such a palette stays as it is. An empty rectangle can still be impossible.
def quantizeWith (draw : Drawing) (picture : Picture) : Except PictureFault IndexedPicture :=
  match picture.fitting? with
  | some fitting => .ok fitting
  | none =>
    match picture.colors with
    | .error fault => .error fault
    | .ok colors =>
      if picture.frame.columns < 0 ∨ picture.frame.rows < 0 then
        .error (.hugeFrame IndexedPicture.kind)
      else .ok (reduce draw picture.frame colors)

def quantize (picture : Picture) : Except PictureFault IndexedPicture :=
  picture.quantizeWith drawNearest

end Picture

end TileConsole
