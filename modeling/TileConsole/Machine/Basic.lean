import TileConsole.Cartridge
import TileConsole.Disassembly
import TileConsole.Machine.Screen
import TileConsole.Program.Basic

namespace TileConsole

def ramSize : Nat := 32768

-- A counter of 64 bits is read as the number it stands for.
instance instCoeCounter : Coe UInt64 Nat := ⟨UInt64.toNat⟩

-- The machine: its memories, registers and screen. The program counter is past
-- the code once a program has ended. `tiles` is the register that says where in
-- video memory the tiles to draw start, and `ticks` counts the instructions since
-- the last start. The code lies at the start of memory.
structure Machine where
  ram : Vector UInt8 ramSize
  vram : VideoMemory
  a : UInt8
  x : UInt16
  pc : Int
  tiles : UInt16
  codeSize : Nat
  entry : Nat
  screen : Screen
  ticks : UInt64
  booted : Bool

-- Why an instruction could not be executed.
inductive RunFault where
  | unknownByte (b : UInt8)
  | operandsCut
  | jumpOutside
  | outsideMemory
deriving DecidableEq, Repr

def RunFault.message : RunFault → Text
  | unknownByte b => (DecodeError.unknownByte b).message
  | operandsCut => "operand past end of code"
  | jumpOutside => "jump out of bounds"
  | outsideMemory => "address outside memory"

-- A fault carries the program counter of its instruction, and its source line
-- if that is known.
inductive MachineError where
  | notBooted
  | runtime (line pc : Int) (fault : RunFault)
deriving DecidableEq, Repr

def MachineError.message : MachineError → Text
  | notBooted => "no cartridge"
  | runtime line pc fault =>
    let place := "pc 0x" ++ Numeral.hex 4 pc ++ " " ++ fault.message
    if line = 0 then place else "line " ++ Numeral.grouped line ++ " " ++ place

-- The code of a cartridge does not fit in memory.
structure CodeTooLarge where
  size : Nat
deriving DecidableEq, Repr

def CodeTooLarge.message (_ : CodeTooLarge) : Text :=
  "code section larger than RAM"

namespace Machine

-- A memory that starts with the given bytes, as far as they fit, and is zero
-- after them.
def memory (size : Nat) (bytes : Bytes) : Vector UInt8 size :=
  let content := bytes.toArray
  Vector.ofFn fun i => content.getD i 0

-- A machine without a cartridge.
def unbooted : Machine where
  ram := Vector.replicate _ 0
  vram := Vector.replicate _ 0
  a := 0
  x := 0
  pc := 0
  tiles := 0
  codeSize := 0
  entry := 0
  screen := .blank
  ticks := 0
  booted := false

-- Clears the registers and the screen and goes back to the entry point.
def reset (machine : Machine) : Machine :=
  { machine with a := 0, x := 0, tiles := 0, pc := machine.entry, ticks := 0, screen := .blank }

-- Loads a cartridge. One whose code does not fit changes nothing.
def boot (machine : Machine) (cartridge : Cartridge) : Machine × Option CodeTooLarge :=
  if ramSize < cartridge.code.length then (machine, some ⟨cartridge.code.length⟩)
  else
    let loaded := { machine with
      ram := memory ramSize cartridge.code
      vram := memory vramSize cartridge.graphics
      codeSize := cartridge.code.length
      entry := cartridge.entry.toNat
      booted := true }
    (loaded.reset, none)

-- What a verbose machine reports when it accepts a cartridge.
def bootNote (cartridge : Cartridge) : Text :=
  "emulator: boot code " ++ Numeral.decimal cartridge.code.length ++ " bytes, gfx " ++
    Numeral.decimal cartridge.graphics.length ++ " bytes"

-- The program counter has left the code.
def done (machine : Machine) : Bool :=
  machine.pc < 0 || machine.codeSize ≤ machine.pc

def plot (machine : Machine) (x y : Int) (color : UInt8) : Machine :=
  { machine with screen := machine.screen.plot x y color }

def drawTiles (machine : Machine) (start : UInt16) (x y : Int) : Machine :=
  { machine with screen := machine.screen.drawTiles machine.vram start.toNat x y }

-- The registers in words.
def registers (machine : Machine) : Text :=
  "pc: " ++ Numeral.hex 4 machine.pc ++ " a: " ++ Numeral.hex 2 machine.a.toNat ++ " x: " ++
    Numeral.hex 4 machine.x.toNat ++ " vram: " ++ Numeral.hex 4 machine.tiles.toNat

-- The source line of the program counter, zero without a program.
def line (machine : Machine) (program : Option Program) : Int :=
  match program with
  | some found => found.lineOf machine.pc
  | none => 0

end Machine

end TileConsole
