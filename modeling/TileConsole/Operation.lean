import TileConsole.Bytes
import TileConsole.Numeral
import TileConsole.Text.UpperCase

namespace TileConsole

-- What follows the operation byte: nothing, a byte, a 16-bit word or two words.
inductive Shape where
  | bare
  | byte
  | word
  | wordPair
deriving DecidableEq, Inhabited, Repr

namespace Shape

-- The number of operand bytes.
def width : Shape → Nat
  | bare => 0
  | byte => 1
  | word => 2
  | wordPair => 4

-- The number of operands in the source.
def operands : Shape → Nat
  | bare => 0
  | byte => 1
  | word => 1
  | wordPair => 2

def name : Shape → Text
  | bare => "none"
  | byte => "u8"
  | word => "u16"
  | wordPair => "u16x2"

-- The shapes are numbered in this order.
def ofNumber? (n : Int) : Option Shape :=
  if n = 0 then some bare
  else if n = 1 then some byte
  else if n = 2 then some word
  else if n = 3 then some wordPair
  else none

-- The name of a shape number, also of one that belongs to no shape.
def nameOfNumber (n : Int) : Text :=
  match ofNumber? n with
  | some shape => shape.name
  | none => "Shape(" ++ Numeral.decimalInt n ++ ")"

end Shape

-- A number that belongs to no shape.
structure UnknownShape where
  number : Int
deriving DecidableEq, Repr

def UnknownShape.message (error : UnknownShape) : Text :=
  "asm: unknown operand shape " ++ Shape.nameOfNumber error.number

def Shape.ofNumber (n : Int) : Except UnknownShape Shape :=
  match ofNumber? n with
  | some shape => .ok shape
  | none => .error ⟨n⟩

-- The operations of the machine.
inductive Operation where
  | nop
  | setA
  | setX
  | plot
  | jump
  | setVram
  | drawTiles
  | halt
deriving DecidableEq, Inhabited, Repr

namespace Operation

def code : Operation → UInt8
  | nop => 0x00
  | setA => 0x01
  | setX => 0x02
  | plot => 0x03
  | jump => 0x04
  | setVram => 0x05
  | drawTiles => 0x08
  | halt => 0xFF

def shape : Operation → Shape
  | nop => .bare
  | setA => .byte
  | setX => .word
  | plot => .bare
  | jump => .word
  | setVram => .word
  | drawTiles => .wordPair
  | halt => .bare

def mnemonic : Operation → Text
  | nop => "NOP"
  | setA => "SET_A"
  | setX => "SET_X"
  | plot => "PLOT"
  | jump => "JMP"
  | setVram => "VSRAM"
  | drawTiles => "DRAW_BTP"
  | halt => "HALT"

-- The bytes of an encoded instruction, its operation byte included.
def size (op : Operation) : Nat :=
  1 + op.shape.width

-- All operations in the order of their codes.
def all : List Operation :=
  [nop, setA, setX, plot, jump, setVram, drawTiles, halt]

def ofByte? (b : UInt8) : Option Operation :=
  all.find? fun op => op.code = b

-- Mnemonics are looked up without regard to case.
def ofMnemonic? (word : Text) : Option Operation :=
  let upper := word.upper
  all.find? fun op => op.mnemonic = upper

-- The mnemonic of an operation byte, or a name for a byte that has none.
def nameOfByte (b : UInt8) : Text :=
  match ofByte? b with
  | some op => op.mnemonic
  | none => "Code(" ++ Numeral.decimal b.toNat ++ ")"

theorem ofByte?_code (op : Operation) : ofByte? op.code = some op := by
  cases op <;> rfl

theorem code_of_ofByte? {b : UInt8} {op : Operation} (h : ofByte? b = some op) : op.code = b := by
  simpa using List.find?_some h

theorem ofMnemonic?_mnemonic (op : Operation) : ofMnemonic? op.mnemonic = some op := by
  cases op <;> decide

end Operation

end TileConsole
