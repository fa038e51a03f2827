import TileConsole.Command.Outcome
import TileConsole.Machine.Tick
import TileConsole.Picture.Png
import TileConsole.Source.Assembly

namespace TileConsole.Play

-- What is to be played. The source is only there to name lines in errors; an
-- empty path means that there is none, or that no picture is wanted.
structure Request where
  cartridge : Text
  source : Text
  frames : Int
  picture : Text
  verbose : Bool

-- Why a game ended before or after it was played.
inductive Failure where
  | unloaded (error : LoadError)
  | unread (error : FileError)
  | unassembled (error : AssemblyError)
  | unbooted (error : CodeTooLarge)
  | undrawn (error : FileError)
deriving DecidableEq, Repr

def Failure.message : Failure → Text
  | unloaded error => error.message
  | unread error => error.message
  | unassembled error => error.message
  | unbooted error => error.message
  | undrawn error => error.message

-- The program of a source, if there is one.
def loadProgram (storage : Storage) (path : Text) : Except Failure (Option Program) :=
  if path = [] then .ok none
  else
    match storage.read path with
    | .error error => .error (.unread error)
    | .ok content =>
      match Assembly.ofStream .lenient (.whole content) with
      | .error error => .error (.unassembled error)
      | .ok program => .ok (some program)

-- The frames that ran to their end and left the game going.
def fullFrames (batch : Machine.Run) : Nat :=
  match batch.result with
  | .ok false => batch.calls
  | _ => batch.calls - 1

-- What is reported of the frames that were played.
def playNotes (path : Text) (batch : Machine.Run) : List Text :=
  let failure : List Text :=
    match batch.result with
    | .error error => [path ++ ": " ++ error.message]
    | .ok _ => []
  let ticks := Numeral.wrapInt64 (batch.machine.ticks : Nat)
  failure ++ [path ++ ": " ++ Numeral.grouped (fullFrames batch) ++ " frames, " ++
    Numeral.grouped ticks ++ " instructions", batch.machine.registers]

-- A game that was played: the reports, and the machine at the end unless the
-- game could not start.
structure Result where
  messages : List Text
  machine : Except Failure Machine

def loadNotes (path : Text) (cartridge : Cartridge) : List Text :=
  [path ++ ": cartridge loaded",
    "  code: " ++ Numeral.grouped cartridge.code.length ++ " bytes",
    "  gfx:  " ++ Numeral.grouped cartridge.graphics.length ++ " bytes"]

def run (storage : Storage) (request : Request) : Result :=
  let path := request.cartridge
  match Cartridge.load storage path with
  | .error error => ⟨[], .error (.unloaded error)⟩
  | .ok cartridge =>
    let loaded := loadNotes path cartridge
    match loadProgram storage request.source with
    | .error failure => ⟨loaded, .error failure⟩
    | .ok program =>
      match Machine.unbooted.boot cartridge with
      | (_, some error) => ⟨loaded, .error (.unbooted error)⟩
      | (machine, none) =>
        let frames := request.frames.toNat
        let traced : List Text :=
          if request.verbose then
            Machine.bootNote cartridge :: machine.notes (Machine.cyclesPerFrame * frames)
          else []
        let batch := Machine.run (Machine.frame program) frames machine
        ⟨loaded ++ traced ++ playNotes path batch, .ok batch.machine⟩

end TileConsole.Play

namespace TileConsole.PlayCommand

def defaultCartridge : Text := "game.BGF"

def flags : List Flag :=
  [⟨"frames", .number⟩, ⟨"png", .text⟩, ⟨"s", .text⟩, ⟨"v", .switch⟩]

def usage (program : Text) : List Text :=
  ["Usage of " ++ program ++ ":",
    "  -frames int",
    "    \tMaximum number of frames to run (default 60)",
    "  -png string",
    "    \tWrite the final screen to a .png file",
    "  -s string",
    "    \t.asm source of the cartridge, for line numbers",
    "  -v\tVerbose mode"]

def request (arguments : Arguments) (cartridge : Text) : Play.Request where
  cartridge := cartridge
  source := arguments.text "s"
  frames := arguments.number "frames" 60
  picture := arguments.text "png"
  verbose := arguments.switch "v"

-- The file that a failure is about.
def subject (request : Play.Request) : Play.Failure → Text
  | .unloaded _ => request.cartridge
  | .unread _ => request.source
  | .unassembled _ => request.source
  | .unbooted _ => request.cartridge
  | .undrawn _ => request.picture

def failed (storage : Storage) (request : Play.Request) (messages : List Text)
    (failure : Play.Failure) : Outcome :=
  .explain 1 (messages ++ [subject request failure ++ ": " ++ failure.message]) storage

-- A command's outcome, and the screen that it wrote to a file.
structure PlayOutcome where
  outcome : Outcome
  screen : Option Screen

def carryOut (storage : Storage) (request : Play.Request) : PlayOutcome :=
  let result := Play.run storage request
  match result.machine with
  | .error failure => ⟨failed storage request result.messages failure, none⟩
  | .ok machine =>
    if request.picture = [] then ⟨.explain 0 result.messages storage, none⟩
    else
      match storage.write request.picture (Png.ofScreen machine.screen) with
      | .error error => ⟨failed storage request result.messages (.undrawn error), none⟩
      | .ok next => ⟨.explain 0 result.messages next, some machine.screen⟩

-- Arguments after the cartridge are refused.
def extraNote (program : Text) (extra : List Text) : Text :=
  program ++ ": Unknown arguments: [" ++ [Symbol.char ' '].intercalate extra ++ "]"

-- The command that plays a cartridge.
def run (program : Text) (arguments : List Text) (storage : Storage) : PlayOutcome :=
  match Arguments.parse flags arguments with
  | .error stop => ⟨.ofStop stop (usage program) storage, none⟩
  | .ok parsed =>
    match parsed.operands with
    | [] => carryOut storage (request parsed defaultCartridge)
    | [cartridge] => carryOut storage (request parsed cartridge)
    | _ :: extra => ⟨.explain 1 [extraNote program extra] storage, none⟩

-- The files that the command may read or write.
def paths (arguments : List Text) : List Text :=
  match Arguments.parse flags arguments with
  | .error _ => []
  | .ok parsed =>
    let asked := request parsed (parsed.operands.headD defaultCartridge)
    [asked.cartridge, asked.source, asked.picture].filter (· != [])

end TileConsole.PlayCommand
