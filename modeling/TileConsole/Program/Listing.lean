import TileConsole.Numeral
import TileConsole.Program.Basic
import TileConsole.Stream

namespace TileConsole.Program

def labelLine (entry : Text × Int) : Text :=
  Numeral.hex 4 entry.2 ++ ":                @" ++ entry.1 ++ "\n"

def instructionLine (inst : Instruction) : Text :=
  Numeral.hex 4 inst.offset ++ ": " ++ Text.padEnd 15 (Numeral.hexDump inst.bytes) ++ "  " ++
    inst.text ++ "\n"

-- The lines of a listing up to some instruction, and the labels that have not
-- been listed yet.
structure ListingState where
  lines : Array Text
  pending : List (Text × Int)

-- Labels stand before the first instruction at their offset.
def listInstruction (state : ListingState) (inst : Instruction) : ListingState :=
  let (here, later) := state.pending.partition fun entry => entry.2 == inst.offset
  ⟨(state.lines ++ (here.map labelLine).toArray).push (instructionLine inst), later⟩

-- The listing of a program. Labels at offsets that no instruction has come
-- last, by offset and then by name.
def listing (program : Program) : List Text :=
  let state := program.instructions.foldl listInstruction ⟨#[], program.labels.sorted⟩
  state.lines.toList ++ (state.pending.mergeSort fun a b => decide (a.2 ≤ b.2)).map labelLine

-- Writes lines one after the other until a write is refused. `refuses` says
-- which writes are, by their number from zero.
def writeLines (refuses : Nat → Option WriteError) (written : Array Text) :
    List Text → List Text × Option WriteError
  | [] => (written.toList, none)
  | line :: rest =>
    match refuses written.size with
    | some error => (written.toList, some error)
    | none => writeLines refuses (written.push line) rest

-- The lines of a listing that a writer took, and the error that stopped it.
def writeListing (program : Program) (refuses : Nat → Option WriteError) :
    List Text × Option WriteError :=
  writeLines refuses #[] program.listing

end TileConsole.Program
