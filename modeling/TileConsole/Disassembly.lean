import TileConsole.Operation

namespace TileConsole

-- Why bytes are not an instruction.
inductive DecodeError where
  | unknownByte (b : UInt8)
  | truncated
deriving DecidableEq, Repr

def DecodeError.message : DecodeError → Text
  | unknownByte b => "bad opcode 0x" ++ Numeral.hex 2 b.toNat
  | truncated => "opcode truncated"

-- The text of one instruction and the number of bytes it takes.
structure Disassembly where
  text : Text
  size : Nat
deriving DecidableEq, Repr

namespace Disassembly

-- The text of an operation with its operand bytes.
def render (op : Operation) (args : Bytes) : Text :=
  match op.shape with
  | .bare => op.mnemonic
  | .byte => op.mnemonic ++ " " ++ Numeral.decimal (Bytes.toNat (args.take 1))
  | .word => op.mnemonic ++ " " ++ Numeral.decimal (Bytes.toNat (args.take 2))
  | .wordPair =>
    op.mnemonic ++ " " ++ Numeral.decimal (Bytes.toNat (args.take 2)) ++ ", " ++
      Numeral.decimal (Bytes.toNat ((args.drop 2).take 2))

-- Reads the instruction at the front of some bytes.
def ofBytes : Bytes → Except DecodeError Disassembly
  | [] => .error .truncated
  | b :: rest =>
    match Operation.ofByte? b with
    | none => .error (.unknownByte b)
    | some op =>
      if rest.length < op.shape.width then .error .truncated
      else .ok ⟨render op rest, op.size⟩

-- Reads the instruction at an offset of a code section.
def ofCode (code : Bytes) (offset : Int) : Except DecodeError Disassembly :=
  if offset < 0 ∨ code.length ≤ offset then .error .truncated
  else ofBytes (code.drop offset.toNat)

end Disassembly

end TileConsole
