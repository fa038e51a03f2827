import TileConsole.Program.Basic
import TileConsole.Source.Fault
import TileConsole.Source.Line

namespace TileConsole

-- How much an assembler lets pass. A lenient one skips unknown mnemonics, lets
-- a label be declared again and keeps the low bits of a byte that is too large.
inductive Mode where
  | lenient
  | strict
deriving DecidableEq, Inhabited, Repr

-- The result of the first pass: instructions with their offsets but without
-- bytes, the offsets of the labels, and the size of the code section.
structure Layout where
  instructions : Array Instruction
  labels : Labels
  size : Nat

namespace Layout

def empty : Layout :=
  ⟨#[], .empty, 0⟩

-- Places one line after those placed before. The line of an unknown
-- instruction is kept even when it is an error.
def place (mode : Mode) (layout : Layout) (line : Line) : Layout × Option Defect :=
  match line.kind with
  | .label name =>
    if mode = .strict ∧ name = [] then (layout, some .labelEmpty)
    else if mode = .strict ∧ layout.labels.contains name then (layout, some .labelDuplicated)
    else ({ layout with labels := layout.labels.insert name layout.size }, none)
  | .instruction mnemonic operands =>
    let inst : Instruction := ⟨line.number, line.text, mnemonic, operands, layout.size, []⟩
    let placed := { layout with instructions := layout.instructions.push inst }
    match Operation.ofMnemonic? mnemonic with
    | some op => ({ placed with size := placed.size + op.size }, none)
    | none => (placed, if mode = .strict then some .unknownInstruction else none)
  | .other => (layout, none)

-- Places lines until one of them has a defect.
def extend (mode : Mode) (layout : Layout) : List Line → Layout × Option SourceError
  | [] => (layout, none)
  | line :: rest =>
    match layout.place mode line with
    | (next, none) => extend mode next rest
    | (next, some defect) => (next, some ⟨line.number, line.text, defect⟩)

def ofLines (mode : Mode) (lines : List Line) : Layout × Option SourceError :=
  extend mode empty lines

-- What is reported of a line that was placed after a layout.
def note? (layout : Layout) (line : Line) : Option Text :=
  let heading := "asm: " ++ Numeral.decimalInt line.number ++ ": "
  match line.kind with
  | .label name => some (heading ++ "label " ++ name ++ " = 0x" ++ Numeral.hex 4 layout.size)
  | .instruction mnemonic _ =>
    match Operation.ofMnemonic? mnemonic with
    | some _ => none
    | none => some (heading ++ "ignoring unknown mnemonic " ++ mnemonic)
  | .other => none

-- The reports of a first pass, in order. A line with a defect ends them.
def pushNotes (mode : Mode) (layout : Layout) (notes : Array Text) : List Line → Array Text
  | [] => notes
  | line :: rest =>
    let noted := notes ++ (layout.note? line).toArray
    match layout.place mode line with
    | (next, none) => pushNotes mode next noted rest
    | (_, some _) => notes

def notes (mode : Mode) (lines : List Line) : List Text :=
  (pushNotes mode empty #[] lines).toList

end Layout

end TileConsole
