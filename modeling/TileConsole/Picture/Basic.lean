import TileConsole.Bytes
import TileConsole.Numeral
import TileConsole.Picture.Color

namespace TileConsole

-- A rectangle of pixels in the plane, by its top left corner and its size.
structure Frame where
  left : Int
  top : Int
  width : Nat
  height : Nat
deriving DecidableEq, Inhabited, Repr

-- What stops the work on a picture for good. A pixel has no colour, or the
-- picture is too large to be held.
inductive PictureFault where
  | outsidePalette
  | missingPixels
  | hugeFrame (kind : Text)
  | noMemory
deriving DecidableEq, Inhabited, Repr

-- Only an impossible rectangle is put in words.
def PictureFault.message? : PictureFault → Option Text
  | hugeFrame kind =>
    some ("image: New" ++ kind ++ " Rectangle has huge or negative dimensions")
  | _ => none

-- More bytes than this cannot be asked for.
def maxMemory : Int := 0x1000000000000

namespace Frame

-- The rectangle between two opposite corners.
def ofCorners (x y x' y' : Int) : Frame :=
  ⟨min x x', min y y', (x - x').natAbs, (y - y').natAbs⟩

def right (frame : Frame) : Int :=
  frame.left + frame.width

def bottom (frame : Frame) : Int :=
  frame.top + frame.height

def area (frame : Frame) : Nat :=
  frame.width * frame.height

-- Width and height are measured in 64-bit integers. A rectangle over more than
-- half of the plane comes out negative.
def columns (frame : Frame) : Int :=
  Numeral.wrapInt64 frame.width

def rows (frame : Frame) : Int :=
  Numeral.wrapInt64 frame.height

-- Asks for the memory of a picture with `size` bytes a pixel. The bytes of a
-- row and of the picture are counted in 64 bits.
def reserve (frame : Frame) (kind : Text) (size : Nat) : Except PictureFault Unit :=
  let bytes := size * frame.columns * frame.rows
  if frame.columns < 0 ∨ frame.rows < 0 ∨ 0x10000000000000000 ≤ size * frame.columns ∨
      0x8000000000000000 ≤ bytes then
    .error (.hugeFrame kind)
  else if maxMemory < bytes then .error .noMemory
  else .ok ()

-- The pixels that two rectangles share. Without any it is the empty rectangle
-- at the origin.
def intersect (a b : Frame) : Frame :=
  let left := max a.left b.left
  let top := max a.top b.top
  let width := min a.right b.right - left
  let height := min a.bottom b.bottom - top
  if 0 < width ∧ 0 < height then ⟨left, top, width.toNat, height.toNat⟩ else ⟨0, 0, 0, 0⟩

end Frame

-- How the samples of a pixel spell a colour.
inductive SampleFormat where
  | rgba
  | rgba64
  | nrgba
  | nrgba64
  | gray
  | gray16
  | alpha
  | cmyk
deriving DecidableEq, Inhabited, Repr

namespace SampleFormat

-- The number of bytes of a pixel.
def width : SampleFormat → Nat
  | rgba => 4
  | rgba64 => 8
  | nrgba => 4
  | nrgba64 => 8
  | gray => 1
  | gray16 => 2
  | alpha => 1
  | cmyk => 4

def name : SampleFormat → Text
  | rgba => "RGBA"
  | rgba64 => "RGBA64"
  | nrgba => "NRGBA"
  | nrgba64 => "NRGBA64"
  | gray => "Gray"
  | gray16 => "Gray16"
  | alpha => "Alpha"
  | cmyk => "CMYK"

-- The colour of a pixel, given its samples. Samples of 16 bits have their high
-- byte first. In `nrgba` and `nrgba64` the channels are not yet scaled by alpha.
def color (format : SampleFormat) (sample : Nat → UInt8) : Color :=
  let wide (i : Nat) : Nat := Color.widen (sample i)
  let pair (i : Nat) : Nat := (sample (2 * i)).toNat * 256 + (sample (2 * i + 1)).toNat
  match format with
  | rgba => Color.ofNats (wide 0) (wide 1) (wide 2) (wide 3)
  | rgba64 => Color.ofNats (pair 0) (pair 1) (pair 2) (pair 3)
  | nrgba =>
    let opacity := (sample 3).toNat
    let scaled (i : Nat) : Nat := wide i * opacity / 255
    Color.ofNats (scaled 0) (scaled 1) (scaled 2) (wide 3)
  | nrgba64 =>
    let scaled (i : Nat) : Nat := pair i * pair 3 / 65535
    Color.ofNats (scaled 0) (scaled 1) (scaled 2) (pair 3)
  | gray => Color.grey (wide 0)
  | gray16 => Color.grey (pair 0)
  | alpha => Color.ofNats (wide 0) (wide 0) (wide 0) (wide 0)
  | cmyk =>
    let light := 65535 - wide 3
    let channel (i : Nat) : Nat := (65535 - wide i) * light / 65535
    Color.ofNats (channel 0) (channel 1) (channel 2) 65535

end SampleFormat

-- A picture whose pixels are numbers of palette entries, row by row.
structure IndexedPicture where
  frame : Frame
  palette : List Color
  pixels : Array UInt8
deriving DecidableEq, Inhabited, Repr

-- A picture whose pixels are samples of colours, row by row.
structure DirectPicture where
  frame : Frame
  format : SampleFormat
  samples : Array UInt8
deriving DecidableEq, Inhabited, Repr

inductive Picture where
  | indexed (picture : IndexedPicture)
  | direct (picture : DirectPicture)
deriving DecidableEq, Inhabited, Repr

-- The bytes of a smaller frame inside a larger one, with `width` bytes a pixel.
def cropBytes (whole part : Frame) (width : Nat) (bytes : Array UInt8) : Array UInt8 :=
  (List.range part.height).foldl (fun found row =>
    let start := ((part.top - whole.top).toNat + row) * whole.width + (part.left - whole.left).toNat
    found ++ bytes.extract (start * width) ((start + part.width) * width)) #[]

namespace IndexedPicture

def kind : Text := "Paletted"

def crop (picture : IndexedPicture) (part : Frame) : IndexedPicture :=
  let shared := picture.frame.intersect part
  { picture with frame := shared, pixels := cropBytes picture.frame shared 1 picture.pixels }

-- The palette number at a column and a row of the picture.
def index (picture : IndexedPicture) (column row : Nat) : UInt8 :=
  picture.pixels.getD (row * picture.frame.width + column) 0

-- The palette numbers of all pixels, row by row. A picture may have been made
-- without pixels.
def indexes (picture : IndexedPicture) : Except PictureFault (List UInt8) :=
  if picture.pixels.size < picture.frame.area then .error .missingPixels
  else .ok (picture.pixels.toList.take picture.frame.area)

-- The colours of all pixels, row by row.
def colors (picture : IndexedPicture) : Except PictureFault (List Color) :=
  let entries := picture.palette.toArray
  let color (n : UInt8) : Except PictureFault Color :=
    match entries[n.toNat]? with
    | some found => .ok found
    | none => .error .outsidePalette
  match picture.indexes with
  | .error fault => .error fault
  | .ok numbers => numbers.mapM color

end IndexedPicture

namespace DirectPicture

def crop (picture : DirectPicture) (part : Frame) : DirectPicture :=
  let shared := picture.frame.intersect part
  { picture with
    frame := shared
    samples := cropBytes picture.frame shared picture.format.width picture.samples }

-- The colour of the pixel with a given number.
def color (picture : DirectPicture) (n : Nat) : Color :=
  picture.format.color fun i => picture.samples.getD (n * picture.format.width + i) 0

-- The colours of all pixels, row by row.
def colors (picture : DirectPicture) : Except PictureFault (List Color) :=
  if picture.samples.size < picture.frame.area * picture.format.width then .error .missingPixels
  else .ok ((List.range picture.frame.area).map picture.color)

end DirectPicture

namespace Picture

def frame : Picture → Frame
  | indexed picture => picture.frame
  | direct picture => picture.frame

def crop : Picture → Frame → Picture
  | indexed picture, part => indexed (picture.crop part)
  | direct picture, part => direct (picture.crop part)

def colors : Picture → Except PictureFault (List Color)
  | indexed picture => picture.colors
  | direct picture => picture.colors

end Picture

end TileConsole
