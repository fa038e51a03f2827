import TileConsole.Source.Layout

namespace TileConsole

-- Why the second pass stopped.
inductive EncodingFailure where
  | rejected (error : SourceError)
  | inconsistent (error : Inconsistency)
deriving DecidableEq, Repr

-- The result of the second pass: the instructions as it left them, how many of
-- them it completed, and why it stopped before the end, if it did.
structure Encoding where
  instructions : List Instruction
  completed : Nat
  failure : Option EncodingFailure
deriving DecidableEq

namespace Encoding

def number (word : Text) : Except Defect Int :=
  match Numeral.parse? word with
  | some n => .ok n
  | none => .error (.notANumber word)

-- A byte operand. A lenient assembler keeps its low 8 bits.
def byteOperand (mode : Mode) (word : Text) : Except Defect Bytes :=
  match number word with
  | .error defect => .error defect
  | .ok n =>
    if mode = .strict ∧ ¬(0 ≤ n ∧ n ≤ 0xFF) then .error (.outOfRange n .byte)
    else .ok [UInt8.ofNat (n % 256).toNat]

-- A 16-bit operand.
def wordOperand (word : Text) : Except Defect Bytes :=
  match number word with
  | .error defect => .error defect
  | .ok n =>
    if 0 ≤ n ∧ n ≤ 0xFFFF then .ok (Bytes.littleEndian 2 n.toNat)
    else .error (.outOfRange n .word)

-- The offset of the label that a jump names, with or without its mark.
def targetLabel? (labels : Labels) (word : Text) : Option Int :=
  match labels.find? word with
  | some offset => some offset
  | none => labels.find? (word.stripFirst Line.labelMark)

-- Where a jump goes: to a label, or to an address written as a number.
def targetOperand (labels : Labels) (word : Text) : Except Defect Bytes :=
  match targetLabel? labels word with
  | none => wordOperand word
  | some offset =>
    if offset ≤ 0xFFFF then .ok (Bytes.littleEndian 2 (offset % 65536).toNat)
    else .error (.outOfRange offset .word)

def operand (mode : Mode) (labels : Labels) (op : Operation) (word : Text) :
    Except Defect Bytes :=
  if op = .jump then targetOperand labels word
  else if op.shape = .byte then byteOperand mode word
  else wordOperand word

-- The bytes in front of the first failure, and that failure.
def join : List (Except Defect Bytes) → Bytes × Option Defect
  | [] => ([], none)
  | .error defect :: _ => ([], some defect)
  | .ok bytes :: rest => (bytes ++ (join rest).1, (join rest).2)

-- The bytes of one instruction. With a defect in an operand these are the
-- bytes up to it, with a wrong number of operands there are none.
def encode (mode : Mode) (labels : Labels) (op : Operation) (operands : List Text) :
    Bytes × Option Defect :=
  if operands.length < op.shape.operands then ([], some .operandMissing)
  else if mode = .strict ∧ op.shape.operands < operands.length then ([], some .extraOperands)
  else
    let joined := join ((operands.take op.shape.operands).map (operand mode labels op))
    (op.code :: joined.1, joined.2)

-- Encodes the instructions that follow those already done, which take `offset`
-- bytes.
def extend (mode : Mode) (labels : Labels) (done : Array Instruction) (offset : Nat) :
    List Instruction → Encoding
  | [] => ⟨done.toList, done.size, none⟩
  | inst :: rest =>
    match Operation.ofMnemonic? inst.mnemonic with
    | none => extend mode labels (done.push { inst with bytes := [] }) offset rest
    | some op =>
      if inst.offset ≠ offset then
        ⟨done.toList ++ inst :: rest, done.size,
          some (.inconsistent (.misplaced inst.line inst.offset offset))⟩
      else
        match encode mode labels op inst.operands with
        | (bytes, some defect) =>
          ⟨done.toList ++ { inst with bytes } :: rest, done.size,
            some (.rejected ⟨inst.line, inst.text, defect⟩)⟩
        | (bytes, none) =>
          if bytes.length ≠ op.size then
            ⟨done.toList ++ { inst with bytes } :: rest, done.size,
              some (.inconsistent (.missized inst.line op bytes.length))⟩
          else extend mode labels (done.push { inst with bytes }) (offset + bytes.length) rest

-- The second pass, with the label table of the first.
def ofInstructions (mode : Mode) (labels : Labels) (instructions : List Instruction) : Encoding :=
  extend mode labels #[] 0 instructions

-- What is reported of an encoded instruction.
def note? (inst : Instruction) : Option Text :=
  match Operation.ofMnemonic? inst.mnemonic with
  | none => none
  | some _ => some ("asm: " ++ Numeral.hex 4 inst.offset ++ ": " ++ Numeral.hexDump inst.bytes)

def notes (encoding : Encoding) : List Text :=
  (encoding.instructions.take encoding.completed).filterMap note?

end Encoding

end TileConsole
