import TileConsole.Bytes
import TileConsole.Picture.Color

namespace TileConsole

def screenWidth : Nat := 380

def screenHeight : Nat := 240

def vramSize : Nat := 65536

-- The colour numbers of the pixels, row by row.
abbrev Screen := Vector UInt8 (screenWidth * screenHeight)

abbrev VideoMemory := Vector UInt8 vramSize

namespace Screen

def blank : Screen :=
  Vector.replicate _ 0

-- The colours of the screen: sixteen greys from black to white.
def palette : List Color :=
  (List.range 16).map fun n => Color.grey (Color.widen (UInt8.ofNat (n * 0x11)))

-- The positions that are on the screen.
abbrev Inside (x y : Int) : Prop :=
  0 ≤ x ∧ x < screenWidth ∧ 0 ≤ y ∧ y < screenHeight

-- The place of a position in the list of pixels.
def place (x y : Int) : Nat :=
  y.toNat * screenWidth + x.toNat

theorem place_lt {x y : Int} (h : Inside x y) : place x y < screenWidth * screenHeight := by
  simp only [Inside, place, screenWidth, screenHeight] at *
  omega

theorem place_inj {x y i j : Int} (h : Inside x y) (k : Inside i j)
    (same : place x y = place i j) : x = i ∧ y = j := by
  simp only [Inside, place, screenWidth, screenHeight] at *
  omega

-- Pixels are counted row by row.
theorem place_linear (n : Nat) :
    place (n % screenWidth : Nat) (n / screenWidth : Nat) = n := by
  rw [place, Int.toNat_natCast, Int.toNat_natCast]
  exact Nat.div_add_mod' n screenWidth

-- Sets a pixel to the low four bits of a colour number. Nothing happens off the
-- screen.
def plot (screen : Screen) (x y : Int) (color : UInt8) : Screen :=
  if h : Inside x y then screen.set (place x y) (color &&& 0x0F) (place_lt h) else screen

theorem getElem_plot_of_ne (screen : Screen) {x y : Int} (color : UInt8) {i : Nat}
    (hi : i < screenWidth * screenHeight) (h : i ≠ place x y) :
    (screen.plot x y color)[i] = screen[i] := by
  unfold plot
  split
  · exact Vector.getElem_set_ne _ hi (Ne.symm h)
  · rfl

-- The colour number at a position, zero off the screen.
def pixel (screen : Screen) (x y : Int) : UInt8 :=
  if h : Inside x y then getElem screen (place x y) (place_lt h) else 0

theorem pixel_plot (screen : Screen) (x y i j : Int) (color : UInt8) :
    (screen.plot x y color).pixel i j =
      if Inside x y ∧ x = i ∧ y = j then color &&& 0x0F else screen.pixel i j := by
  by_cases inside : Inside x y
  · by_cases seen : Inside i j
    · rw [pixel, pixel, plot, dif_pos seen, dif_pos seen, dif_pos inside, Vector.getElem_set]
      by_cases same : x = i ∧ y = j
      · obtain ⟨rfl, rfl⟩ := same
        rw [if_pos rfl, if_pos ⟨inside, rfl, rfl⟩]
      · rw [if_neg fun found => same (place_inj inside seen found), if_neg fun found => same found.2]
    · rw [pixel, pixel, dif_neg seen, dif_neg seen, if_neg]
      rintro ⟨_, rfl, rfl⟩
      exact seen inside
  · rw [plot, dif_neg inside, if_neg fun found => inside found.1]

-- Two neighbouring pixels from one byte, the left one in its high half.
def plotPair (screen : Screen) (x y : Int) (packed : UInt8) : Screen :=
  (screen.plot x y (packed >>> 4)).plot (x + 1) y (packed &&& 0x0F)

-- The number of tiles that a row of pixels needs.
def tileCount (pixels : Nat) : Nat :=
  (pixels + 7) / 8

-- Where the left pixel of the packed byte `k` lies in a picture that is
-- `across` tiles wide. A tile has eight rows of four bytes.
def pairColumn (across k : Nat) : Nat :=
  8 * (k / 32 % across) + 2 * (k % 4)

def pairRow (across k : Nat) : Nat :=
  8 * (k / 32 / across) + k % 32 / 4

-- A 16-bit number in video memory.
def wordAt (vram : VideoMemory) (offset : Nat) : Nat :=
  Bytes.toNat [vram.getD offset 0, vram.getD (offset + 1) 0]

-- Draws the first `count` packed bytes after a header at `start`.
def drawPairs (vram : VideoMemory) (start across : Nat) (x y : Int) (count : Nat)
    (screen : Screen) : Screen :=
  (List.range count).foldl (fun drawn k =>
    drawn.plotPair (x + pairColumn across k) (y + pairRow across k) (vram.getD (start + 4 + k) 0))
    screen

-- Draws the tiles whose header is at `start` with their top left corner at a
-- position. Always whole tiles are drawn, as far as video memory reaches.
def drawTiles (screen : Screen) (vram : VideoMemory) (start : Nat) (x y : Int) : Screen :=
  if vramSize < start + 4 then screen
  else
    let across := tileCount (wordAt vram start)
    let down := tileCount (wordAt vram (start + 2))
    drawPairs vram start across x y (min (32 * across * down) (vramSize - (start + 4))) screen

end Screen

end TileConsole
