import TileConsole.Source.Encoding
import TileConsole.Stream

namespace TileConsole

-- Why a source has no program.
inductive AssemblyError where
  | unreadable (error : ReadError)
  | rejected (error : SourceError)
  | inconsistent (error : Inconsistency)
deriving DecidableEq, Repr

def AssemblyError.message : AssemblyError → Text
  | unreadable error => error.message
  | rejected error => error.message
  | inconsistent error => error.message

namespace Assembly

-- Assembles lines in two passes, so that a jump may name a label that is
-- declared after it.
def ofLines (mode : Mode) (lines : List Line) : Except AssemblyError Program :=
  match Layout.ofLines mode lines with
  | (_, some error) => .error (.rejected error)
  | (layout, none) =>
    let encoding := Encoding.ofInstructions mode layout.labels layout.instructions.toList
    match encoding.failure with
    | some (.rejected error) => .error (.rejected error)
    | some (.inconsistent error) => .error (.inconsistent error)
    | none => .ok ⟨encoding.instructions, layout.labels⟩

def ofText (mode : Mode) (source : Text) : Except AssemblyError Program :=
  ofLines mode (Line.readAll source)

def ofStream (mode : Mode) (source : Stream) : Except AssemblyError Program :=
  match source.failure with
  | some error => .error (.unreadable error)
  | none => ofText mode (Text.ofBytes source.bytes)

-- What a verbose assembler reports about lines, up to the first error.
def notesOfLines (mode : Mode) (lines : List Line) : List Text :=
  let count : Text := "asm: " ++ Numeral.decimal lines.length ++ " lines"
  let firstPass := count :: Layout.notes mode lines
  match Layout.ofLines mode lines with
  | (_, some _) => firstPass
  | (layout, none) =>
    let encoding := Encoding.ofInstructions mode layout.labels layout.instructions.toList
    let bothPasses := firstPass ++ encoding.notes
    match encoding.failure with
    | some _ => bothPasses
    | none =>
      bothPasses ++ ["asm: " ++ Numeral.decimal layout.instructions.size ++ " instructions, " ++
        Numeral.decimal layout.labels.size ++ " labels, " ++ Numeral.decimal layout.size ++
        " bytes"]

def notes (mode : Mode) (source : Stream) : List Text :=
  match source.failure with
  | some _ => []
  | none => notesOfLines mode (Line.readAll (Text.ofBytes source.bytes))

end Assembly

end TileConsole
