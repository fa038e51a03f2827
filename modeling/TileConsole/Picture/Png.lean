import TileConsole.Machine.Screen

namespace TileConsole.Png

-- The most significant byte first, as the format stores its numbers.
def bigEndian (count n : Nat) : Bytes :=
  (Bytes.littleEndian count n).reverse

-- One bit of the division that gives the check value of a chunk.
def checkBit (n : UInt32) : UInt32 :=
  if n &&& 1 = 1 then (n >>> 1) ^^^ 0xEDB88320 else n >>> 1

def checkByte (state : UInt32) (b : UInt8) : UInt32 :=
  Nat.fold 8 (fun _ _ n => checkBit n) (state ^^^ b.toUInt32)

-- The check value at the end of a chunk.
def check (bytes : Bytes) : UInt32 :=
  bytes.foldl checkByte 0xFFFFFFFF ^^^ 0xFFFFFFFF

-- The check value at the end of compressed data: the sum of the bytes and the
-- sum of those sums.
def sums (bytes : Bytes) : Nat :=
  let (low, high) := bytes.foldl (fun (low, high) b =>
    let next := (low + b.toNat) % 65521
    (next, (high + next) % 65521)) (1, 0)
  high * 65536 + low

def chunk (name : Bytes) (content : Bytes) : Bytes :=
  bigEndian 4 content.length ++ name ++ content ++ bigEndian 4 (check (name ++ content)).toNat

-- The bytes of a screen: each row starts with the number of its filter, which
-- is none, and holds two pixels in a byte.
def rows (screen : Screen) : Bytes :=
  (List.range screenHeight).flatMap fun (y : Nat) =>
    0 :: (List.range (screenWidth / 2)).map fun (pair : Nat) =>
      (screen.pixel (2 * pair : Nat) y <<< 4) ||| screen.pixel (2 * pair + 1 : Nat) y

-- Data in one stored block, which holds up to 65535 bytes.
def stored (bytes : Bytes) : Bytes :=
  [0x78, 0x01, 0x01] ++ Bytes.littleEndian 2 bytes.length ++
    Bytes.littleEndian 2 (65535 - bytes.length) ++ bytes ++ bigEndian 4 (sums bytes)

def signature : Bytes :=
  [0x89, 0x50, 0x4E, 0x47, 0x0D, 0x0A, 0x1A, 0x0A]

-- Four bits a pixel, numbers of palette entries, no other choices.
def imageHeader : Bytes :=
  bigEndian 4 screenWidth ++ bigEndian 4 screenHeight ++ [4, 3, 0, 0, 0]

def paletteBytes : Bytes :=
  let high (channel : UInt16) : UInt8 := (channel >>> 8).toUInt8
  Screen.palette.flatMap fun color => [high color.red, high color.green, high color.blue]

-- The picture file of a screen.
def ofScreen (screen : Screen) : Bytes :=
  signature ++ chunk [0x49, 0x48, 0x44, 0x52] imageHeader ++
    chunk [0x50, 0x4C, 0x54, 0x45] paletteBytes ++
    chunk [0x49, 0x44, 0x41, 0x54] (stored (rows screen)) ++ chunk [0x49, 0x45, 0x4E, 0x44] []

end TileConsole.Png
