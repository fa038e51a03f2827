import TileConsole.Picture.Bitmap
import TileConsole.Picture.Tiles
import TileConsole.Storage

namespace TileConsole

-- What it takes to turn files into tiles: to decode the bytes of a file to a
-- picture, words for what may be wrong with them, and to draw with a palette. A
-- picture of any kind without a palette is decoded to its colours, for which there
-- is the sample format `rgba64`.
structure Imaging (ε : Type) where
  decode : Stream → Except PictureFault (Except ε Picture)
  message : ε → Text
  draw : Drawing

-- Why a picture file gave no tiles.
inductive TileLoadError (ε : Type) where
  | unreadable (error : FileError)
  | undecodable (path : Text) (error : ε)
  | tooLarge (width height : Int)
deriving DecidableEq, Repr

namespace Imaging

variable {ε : Type}

def describe (imaging : Imaging ε) : TileLoadError ε → Text
  | .unreadable error => error.message
  | .undecodable path error => path ++ ": " ++ imaging.message error
  | .tooLarge width height => tooLargeMessage width height

-- Reads a picture file as tiles. What stops the work for good is told apart
-- from the errors.
def loadTiles (imaging : Imaging ε) (storage : Storage) (path : Text) :
    Except PictureFault (Except (TileLoadError ε) Bytes) :=
  match storage.openStream path with
  | .error error => .ok (.error (.unreadable error))
  | .ok source =>
    match imaging.decode source with
    | .error fault => .error fault
    | .ok (.error error) => .ok (.error (.undecodable path error))
    | .ok (.ok picture) =>
      match picture.tilesWith imaging.draw with
      | .ok tiles => .ok (.ok tiles)
      | .error (.tooLarge width height) => .ok (.error (.tooLarge width height))
      | .error (.stopped fault) => .error fault

end Imaging

-- Pictures in bitmap files, drawn with the nearest colours.
def Bitmap.imaging : Imaging PictureError where
  decode source := decode source.bytes
  message := PictureError.message
  draw := drawNearest

def TileLoadError.message : TileLoadError PictureError → Text :=
  Bitmap.imaging.describe

def loadTiles (storage : Storage) (path : Text) :
    Except PictureFault (Except (TileLoadError PictureError) Bytes) :=
  Bitmap.imaging.loadTiles storage path

end TileConsole
