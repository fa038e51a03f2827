import TileConsole.Cartridge
import TileConsole.Command.Outcome
import TileConsole.Picture.Load
import TileConsole.Program.Listing
import TileConsole.Source.Assembly

namespace TileConsole.Build

-- What a build leaves to its host: to turn a picture into tiles, and to write a
-- file.
structure Host (ε : Type) extends Imaging ε where
  write : Storage.Writer

-- What is to be built. An empty graphics path means that there are none. The
-- listing goes to a writer that may refuse lines, if one is wanted.
structure Request where
  mode : Mode
  verbose : Bool
  source : Text
  graphics : Text
  output : Text
  listing : Option (Nat → Option WriteError)

-- Why there is no cartridge.
inductive Failure where
  | unopened (error : FileError)
  | unassembled (error : AssemblyError)
  | unlisted (error : WriteError)
  | unsaved (error : SaveError)
deriving DecidableEq, Repr

def Failure.message : Failure → Text
  | unopened error => error.message
  | unassembled error => error.message
  | unlisted error => error.message
  | unsaved error => error.message

-- The result of a build, with the reports made and the lines listed on the way.
structure Result where
  storage : Storage
  messages : List Text
  listed : List Text
  cartridge : Except Failure Cartridge

-- Graphics and what is reported about them. A picture that cannot be used only
-- leaves the cartridge without graphics.
structure Graphics where
  tiles : Bytes
  messages : List Text
deriving DecidableEq, Repr

def loadGraphics {ε : Type} (imaging : Imaging ε) (storage : Storage) (path : Text) :
    Except PictureFault Graphics :=
  if path = [] then .ok ⟨[], []⟩
  else
    let opening := path ++ ": converting graphics"
    match imaging.loadTiles storage path with
    | .error fault => .error fault
    | .ok (.ok tiles) => .ok ⟨tiles, [opening]⟩
    | .ok (.error error) =>
      .ok ⟨[], [opening, "warning: " ++ path ++ ": " ++ imaging.describe error ++
        "; cartridge will have no graphics"]⟩

-- Lists a program, if that is wanted.
def list (listing : Option (Nat → Option WriteError)) (program : Program) :
    List Text × Option WriteError :=
  match listing with
  | none => ([], none)
  | some refuses => program.writeListing refuses

-- Assembles a source and saves it with its graphics. The graphics come first,
-- and no file is written unless everything else went well.
def run {ε : Type} (host : Host ε) (storage : Storage) (request : Request) :
    Except PictureFault Result :=
  match loadGraphics host.toImaging storage request.graphics with
  | .error fault => .error fault
  | .ok graphics =>
    match storage.openStream request.source with
    | .error error => .ok ⟨storage, graphics.messages, [], .error (.unopened error)⟩
    | .ok source =>
      let messages := graphics.messages ++ [request.source ++ ": assembling"] ++
        (if request.verbose then Assembly.notes request.mode source else [])
      match Assembly.ofStream request.mode source with
      | .error error => .ok ⟨storage, messages, [], .error (.unassembled error)⟩
      | .ok program =>
        match list request.listing program with
        | (listed, some error) => .ok ⟨storage, messages, listed, .error (.unlisted error)⟩
        | (listed, none) =>
          let cartridge := Cartridge.ofSections program.code graphics.tiles
          match cartridge.saveWith host.write storage request.output with
          | .error error => .ok ⟨storage, messages, listed, .error (.unsaved error)⟩
          | .ok next => .ok ⟨next, messages, listed, .ok cartridge⟩

end TileConsole.Build

namespace TileConsole.BuildCommand

-- The command reads bitmap files and writes to the storage.
def host : Build.Host PictureError where
  toImaging := Bitmap.imaging
  write := Storage.writer

def outputPath : Text := "game.BGF"

def flags : List Flag :=
  [⟨"v", .switch⟩, ⟨"strict", .switch⟩, ⟨"l", .switch⟩]

def usage (program : Text) : List Text :=
  ["usage: " ++ program ++ " [options] game.asm [graphics.png]",
    "  -l\tPrint a listing of the assembled code",
    "  -strict",
    "    \tReject unknown mnemonics, duplicate labels and out of range bytes",
    "  -v\tVerbose mode"]

-- What the arguments ask to build, if they name a source and at most one
-- picture.
def request? (arguments : Arguments) : Option Build.Request :=
  let request (source graphics : Text) : Build.Request :=
    { mode := if arguments.switch "strict" then .strict else .lenient
      verbose := arguments.switch "v"
      source
      graphics
      output := outputPath
      listing := if arguments.switch "l" then some fun _ => none else none }
  match arguments.operands with
  | [source] => some (request source [])
  | [source, graphics] => some (request source graphics)
  | _ => none

-- What is reported of a cartridge that was built.
def summary (cartridge : Cartridge) : List Text :=
  [outputPath ++ ": generated",
    "  code size: " ++ Numeral.grouped cartridge.code.length ++ " bytes",
    "  gfx size:  " ++ Numeral.grouped cartridge.graphics.length ++ " bytes"]

-- The last report of a failed build.
def complaint (source : Text) : Build.Failure → Text
  | .unassembled (.inconsistent error) => error.message
  | failure => source ++ ": " ++ failure.message

def carryOut (storage : Storage) (request : Build.Request) : Outcome :=
  match Build.run host storage request with
  | .error _ => ⟨2, [], [request.graphics ++ ": converting graphics"], storage⟩
  | .ok result =>
    match result.cartridge with
    | .error failure =>
      ⟨1, result.listed.flatten, result.messages ++ [complaint request.source failure],
        result.storage⟩
    | .ok cartridge =>
      ⟨0, result.listed.flatten, result.messages ++ summary cartridge, result.storage⟩

-- The command that builds a cartridge.
def run (program : Text) (arguments : List Text) (storage : Storage) : Outcome :=
  match Arguments.parse flags arguments with
  | .error stop => .ofStop stop (usage program) storage
  | .ok parsed =>
    match request? parsed with
    | none => .explain 2 (usage program) storage
    | some request => carryOut storage request

-- The files that the command may read or write.
def paths (arguments : List Text) : List Text :=
  match Arguments.parse flags arguments with
  | .error _ => []
  | .ok parsed => outputPath :: parsed.operands

end TileConsole.BuildCommand
