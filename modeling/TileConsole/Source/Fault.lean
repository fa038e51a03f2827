import TileConsole.Operation

namespace TileConsole

-- What is wrong with a source line.
inductive Defect where
  | labelDuplicated
  | labelEmpty
  | extraOperands
  | operandMissing
  | unknownInstruction
  | notANumber (word : Text)
  | outOfRange (value : Int) (shape : Shape)
deriving DecidableEq, Repr

def Defect.message : Defect → Text
  | labelDuplicated => "label duplicated"
  | labelEmpty => "label name missing"
  | extraOperands => "excessive arguments"
  | operandMissing => "value missing"
  | unknownInstruction => "instruction invalid"
  | notANumber word => "'" ++ word ++ "' is not a number"
  | outOfRange value shape => Numeral.grouped value ++ " does not fit in " ++ shape.name

-- A defect with the line that has it.
structure SourceError where
  line : Int
  text : Text
  defect : Defect
deriving DecidableEq, Repr

def SourceError.message (error : SourceError) : Text :=
  "line " ++ Numeral.grouped error.line ++ " '" ++ error.text ++ "' " ++ error.defect.message

-- The two passes disagree about an instruction. Instructions that the first
-- pass placed never lead to this.
inductive Inconsistency where
  | misplaced (line placed reached : Int)
  | missized (line : Int) (op : Operation) (actual : Nat)
deriving DecidableEq, Repr

def Inconsistency.message : Inconsistency → Text
  | misplaced line placed reached =>
    "asm: line " ++ Numeral.decimalInt line ++ " placed at 0x" ++ Numeral.hex 4 placed ++
      ", encoded at 0x" ++ Numeral.hex 4 reached
  | missized line op actual =>
    "asm: line " ++ Numeral.decimalInt line ++ " " ++ op.mnemonic ++ " encoded " ++
      Numeral.decimal actual ++ " bytes, expected " ++ Numeral.decimal op.size

end TileConsole
