import TileConsole.Picture.Basic
import TileConsole.Text.Basic

namespace TileConsole

-- Why bytes are not a picture. A file may end where more was expected, or in
-- the middle of what was expected.
inductive PictureError where
  | unknownFormat
  | unsupported
  | atEnd
  | unexpectedEnd
deriving DecidableEq, Repr

def PictureError.message : PictureError → Text
  | unknownFormat => "image: unknown format"
  | unsupported => "bmp: unsupported BMP image"
  | atEnd => "EOF"
  | unexpectedEnd => "unexpected EOF"

namespace Bitmap

-- How the pixels of a bitmap file are stored.
inductive Depth where
  | indexed (palette : List Color)
  | trueColor
  | trueColorAlpha (keepsAlpha : Bool)
deriving DecidableEq, Repr

-- What the headers of a bitmap file say, and the bytes after them. Rows are
-- stored from the bottom up unless the file says otherwise.
structure Header where
  width : Nat
  height : Nat
  topDown : Bool
  depth : Depth
  rest : Bytes
deriving DecidableEq, Repr

-- Splits off exactly `count` bytes.
def takeExactly (count : Nat) (bytes : Bytes) : Except PictureError (Bytes × Bytes) :=
  let taken := bytes.take count
  if taken.length = count then .ok (taken, bytes.drop count)
  else if taken = [] then .error .atEnd
  else .error .unexpectedEnd

def hasAtLeast (count : Nat) (bytes : Bytes) : Bool :=
  (bytes.take count).length == count

def field (data : Bytes) (offset count : Nat) : Nat :=
  Bytes.toNat ((data.drop offset).take count)

-- The file starts with `BM`, four bytes of any value and four zero bytes.
def hasSignature (data : Bytes) : Bool :=
  hasAtLeast 10 data && data.take 2 == [0x42, 0x4D] && (data.drop 6).take 4 == [0, 0, 0, 0]

def fileHeaderSize : Nat := 14

-- The sizes of the information headers that are understood.
def infoSizes : List Nat := [40, 108, 124]

-- Colour masks are accepted when they say what is also true without them.
def hasPlainMasks (data : Bytes) (infoSize : Nat) : Bool :=
  decide (40 < infoSize) && field data 54 4 == 0xFF0000 && field data 58 4 == 0xFF00 &&
    field data 62 4 == 0xFF && field data 66 4 == 0xFF000000

def isUncompressed (data : Bytes) (infoSize : Nat) : Bool :=
  let compression := field data 30 4
  compression == 0 || (compression == 3 && hasPlainMasks data infoSize)

-- The palette entries of a bitmap: blue, green, red and an unused byte each.
def paletteOf (count : Nat) (bytes : Bytes) : List Color :=
  let entries := bytes.toArray
  let channel (i : Nat) : Nat := Color.widen (entries.getD i 0)
  (List.range count).map fun i =>
    Color.ofNats (channel (4 * i + 2)) (channel (4 * i + 1)) (channel (4 * i)) 65535

-- The depth of the pixels and the bytes after the palette.
def readDepth (data : Bytes) (infoSize : Nat) : Except PictureError (Depth × Bytes) :=
  let start := field data 10 4
  let headers := fileHeaderSize + infoSize
  let rest := data.drop headers
  match field data 28 2 with
  | 8 =>
    let stated := field data 46 4
    let count := if stated = 0 then 256 else stated
    if 256 < count ∨ start ≠ headers + 4 * count then .error .unsupported
    else do
      let (entries, pixels) ← takeExactly (4 * count) rest
      return (.indexed (paletteOf count entries), pixels)
  | 24 => if start = headers then .ok (.trueColor, rest) else .error .unsupported
  | 32 =>
    if start = headers then .ok (.trueColorAlpha (decide (40 < infoSize)), rest)
    else .error .unsupported
  | _ => .error .unsupported

def readHeader (data : Bytes) : Except PictureError Header :=
  if ¬hasSignature data then .error .unknownFormat
  else if ¬hasAtLeast (fileHeaderSize + 4) data then .error .unexpectedEnd
  else
    let infoSize := field data 14 4
    if infoSize ∉ infoSizes then .error .unsupported
    else if ¬hasAtLeast (fileHeaderSize + infoSize) data then .error .unexpectedEnd
    else
      let width := Bytes.signed32 (field data 18 4)
      let height := Bytes.signed32 (field data 22 4)
      if width < 0 ∨ field data 26 2 ≠ 1 ∨ ¬isUncompressed data infoSize then .error .unsupported
      else do
        let (depth, rest) ← readDepth data infoSize
        return ⟨width.toNat, height.natAbs, decide (height < 0), depth, rest⟩

-- The bytes of a row that follow its pixels, so that rows start at multiples
-- of four.
def padding (count : Nat) : Nat :=
  (4 - count % 4) % 4

-- Reads one row. The padding of indexed rows is a read of its own.
def readRow (depth : Depth) (width : Nat) (bytes : Bytes) :
    Except PictureError (Bytes × Bytes) :=
  match depth with
  | .indexed _ => do
    let (row, afterRow) ← takeExactly width bytes
    let (_, rest) ← takeExactly (padding width) afterRow
    return (row, rest)
  | .trueColor => takeExactly (3 * width + padding (3 * width)) bytes
  | .trueColorAlpha _ => takeExactly (4 * width) bytes

-- Reads rows in the order of the file.
def readRows (depth : Depth) (width : Nat) (found : Array Bytes) :
    Nat → Bytes → Except PictureError (Array Bytes)
  | 0, _ => .ok found
  | count + 1, bytes =>
    match readRow depth width bytes with
    | .error error => .error error
    | .ok (row, rest) => readRows depth width (found.push row) count rest

-- The samples of a row of colours, which the file has as blue, green, red.
def rowSamples (depth : Depth) (width : Nat) (row : Bytes) : Bytes :=
  let stored := row.toArray
  let sampleAt (i : Nat) : UInt8 := stored.getD i 0
  match depth with
  | .indexed _ => row
  | .trueColor =>
    (List.range width).flatMap fun i => [sampleAt (3 * i + 2), sampleAt (3 * i + 1), sampleAt (3 * i), 255]
  | .trueColorAlpha keepsAlpha =>
    (List.range width).flatMap fun i =>
      [sampleAt (4 * i + 2), sampleAt (4 * i + 1), sampleAt (4 * i), if keepsAlpha then sampleAt (4 * i + 3) else 255]

-- The samples of a picture, from the top row down.
def readSamples (header : Header) : Except PictureError (Array UInt8) :=
  if header.width = 0 ∨ header.height = 0 then .ok #[]
  else do
    let stored ← readRows header.depth header.width #[] header.height header.rest
    let rows := if header.topDown then stored.toList else stored.toList.reverse
    return (rows.flatMap (rowSamples header.depth header.width)).toArray

def Header.frame (header : Header) : Frame :=
  ⟨0, 0, header.width, header.height⟩

-- Asks for the memory of the picture that a header announces.
def Header.reserve (header : Header) : Except PictureFault Unit :=
  let direct (format : SampleFormat) := header.frame.reserve format.name format.width
  match header.depth with
  | .indexed _ => header.frame.reserve IndexedPicture.kind 1
  | .trueColor => direct .rgba
  | .trueColorAlpha _ => direct .nrgba

-- The picture that a header announces, with its samples.
def Header.picture (header : Header) (samples : Array UInt8) : Picture :=
  match header.depth with
  | .indexed palette => .indexed ⟨header.frame, palette, samples⟩
  | .trueColor => .direct ⟨header.frame, .rgba, samples⟩
  | .trueColorAlpha _ => .direct ⟨header.frame, .nrgba, samples⟩

-- Reads a bitmap file. The memory of the picture is asked for before its rows
-- are read.
def decode (data : Bytes) : Except PictureFault (Except PictureError Picture) :=
  match readHeader data with
  | .error error => .ok (.error error)
  | .ok header =>
    match header.reserve with
    | .error fault => .error fault
    | .ok _ => .ok ((readSamples header).map header.picture)

end Bitmap

end TileConsole
