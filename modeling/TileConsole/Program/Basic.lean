import TileConsole.Bytes
import TileConsole.Source.Labels
import TileConsole.Visit

namespace TileConsole

-- An instruction line with its place in the code section and its encoding. An
-- unknown mnemonic has no bytes.
structure Instruction where
  line : Int
  text : Text
  mnemonic : Text
  operands : List Text
  offset : Int
  bytes : Bytes
deriving DecidableEq, Repr

-- The bytes of an instruction lie between its offset and its end. Offsets are
-- 64-bit integers, so an instruction whose end is none of them covers nothing.
def Instruction.covers (inst : Instruction) (offset : Int) : Bool :=
  let stop := inst.offset + inst.bytes.length
  inst.offset ≤ offset && offset < stop && stop < 0x8000000000000000

structure Program where
  instructions : List Instruction
  labels : Labels
deriving DecidableEq

-- The instruction that a byte of the code section belongs to, and the place of
-- the byte in its encoding.
structure Location where
  instruction : Instruction
  index : Int
deriving DecidableEq, Repr

namespace Program

def code (program : Program) : Bytes :=
  program.instructions.flatMap Instruction.bytes

def size (program : Program) : Nat :=
  program.instructions.foldl (fun size inst => size + inst.bytes.length) 0

theorem foldl_length_bytes (insts : List Instruction) (start : Nat) :
    insts.foldl (fun size inst => size + inst.bytes.length) start =
      start + (insts.flatMap Instruction.bytes).length := by
  induction insts generalizing start with
  | nil => rfl
  | cons inst rest ih =>
    rw [List.foldl_cons, ih, List.flatMap_cons, List.length_append, Nat.add_assoc]

theorem length_code (program : Program) : program.code.length = program.size := by
  rw [code, size, foldl_length_bytes, Nat.zero_add]

-- Shows the bytes of the code section to a consumer until it asks to stop.
def visitCode (program : Program) (consume : σ → UInt8 → σ × Bool) (state : σ) : σ × Bool :=
  Visit.each consume (program.instructions.map Instruction.bytes) state

-- The first `count` bytes of the code section.
def head (program : Program) (count : Nat) : Bytes :=
  Visit.collect count (program.instructions.map Instruction.bytes)

-- The first instruction that covers an offset.
def locate? (program : Program) (offset : Int) : Option Location :=
  (program.instructions.find? (·.covers offset)).map fun inst => ⟨inst, offset - inst.offset⟩

-- The source line of an offset, zero if there is none.
def lineOf (program : Program) (offset : Int) : Int :=
  match program.locate? offset with
  | some found => found.instruction.line
  | none => 0

end Program

end TileConsole
