import TileConsole.Numeral
import TileConsole.Picture.Palette

namespace TileConsole

-- Why a picture has no tiles.
inductive TileError where
  | tooLarge (width height : Int)
  | stopped (fault : PictureFault)
deriving DecidableEq, Repr

-- What is said of a picture that is too large.
def tooLargeMessage (width height : Int) : Text :=
  "image " ++ Numeral.grouped width ++ "x" ++ Numeral.grouped height ++ " exceeds 65535x65535"

-- The header of tiles has 16 bits for the width and for the height.
def maxSide : Int := 0xFFFF

namespace IndexedPicture

def tileSide : Nat := 8

-- The packed bytes of one row of a tile. A pair whose right pixel lies past the
-- width is left out.
def packRow (picture : IndexedPicture) (left row : Nat) : Bytes :=
  (List.range (tileSide / 2)).filterMap fun pair =>
    let column := left + 2 * pair
    if column + 1 < picture.frame.width then
      some (((picture.index column row &&& 0x0F) <<< 4) |||
        (picture.index (column + 1) row &&& 0x0F))
    else none

-- The packed bytes of a tile. Rows past the height are left out.
def packTile (picture : IndexedPicture) (left top : Nat) : Bytes :=
  (List.range tileSide).flatMap fun line =>
    if top + line < picture.frame.height then picture.packRow left (top + line) else []

-- The corners of the tiles along one side of a picture.
def tileCorners (side : Nat) : List Nat :=
  (List.range ((side + (tileSide - 1)) / tileSide)).map (· * tileSide)

-- The packed bytes of all tiles, row by row of tiles.
def packTiles (picture : IndexedPicture) : Bytes :=
  (tileCorners picture.frame.height).flatMap fun top =>
    (tileCorners picture.frame.width).flatMap fun left => picture.packTile left top

-- The pixels that packing looks at: all but the last column of an odd width.
def pixelsNeeded (picture : IndexedPicture) : Nat :=
  if picture.frame.width < 2 ∨ picture.frame.height = 0 then 0
  else (picture.frame.height - 1) * picture.frame.width + picture.frame.width / 2 * 2

-- The memory that is asked for ahead: the header, and a byte for two pixels.
-- It is counted in 64 bits.
def memoryNeeded (picture : IndexedPicture) : Int :=
  let pixels := Numeral.wrapInt64 (picture.frame.columns * picture.frame.rows)
  4 + (Numeral.wrapInt64 (pixels + 1)).tdiv 2

-- The low 16 bits of a width or a height.
def sideBytes (side : Int) : Bytes :=
  Bytes.littleEndian 2 (side % 65536).toNat

-- A picture as tiles: its width and height, and its pixels in pairs. There are
-- no pixels if the width or the height comes out negative.
def tiles (picture : IndexedPicture) : Except TileError Bytes :=
  let columns := picture.frame.columns
  let rows := picture.frame.rows
  let header := sideBytes columns ++ sideBytes rows
  if maxSide < columns ∨ maxSide < rows then .error (.tooLarge columns rows)
  else if picture.memoryNeeded < 0 ∨ maxMemory < picture.memoryNeeded then
    .error (.stopped .noMemory)
  else if columns < 0 ∨ rows < 0 then .ok header
  else if picture.pixels.size < picture.pixelsNeeded then .error (.stopped .missingPixels)
  else .ok (header ++ picture.packTiles)

end IndexedPicture

namespace Picture

-- Quantizes a picture and packs it.
def tilesWith (draw : Drawing) (picture : Picture) : Except TileError Bytes :=
  match picture.quantizeWith draw with
  | .error fault => .error (.stopped fault)
  | .ok quantized => quantized.tiles

def tiles (picture : Picture) : Except TileError Bytes :=
  picture.tilesWith drawNearest

end Picture

end TileConsole
