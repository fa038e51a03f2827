import TileConsole.Machine.Basic

namespace TileConsole.Machine

-- How many instructions make a frame.
def cyclesPerFrame : Nat := 10

-- `count` bytes of memory from an address on, if memory reaches that far.
def bytesAt? (machine : Machine) (address count : Nat) : Option Bytes :=
  (List.range count).mapM fun i => machine.ram[address + i]?

-- Carries out an operation once the program counter points behind it.
def perform (machine : Machine) (op : Operation) (args : Bytes) : Machine × Option RunFault :=
  match op with
  | .nop => (machine, none)
  | .setA => ({ machine with a := UInt8.ofNat (Bytes.toNat args) }, none)
  | .setX => ({ machine with x := UInt16.ofNat (Bytes.toNat args) }, none)
  | .plot =>
    let x := machine.x.toNat
    let color := machine.a
    (machine.plot (x % screenWidth : Nat) (x / screenWidth : Nat) color, none)
  | .jump =>
    let target := Bytes.toNat args
    if machine.codeSize ≤ target then
      let stop := machine.codeSize
      ({ machine with pc := stop }, some .jumpOutside)
    else ({ machine with pc := target }, none)
  | .setVram => ({ machine with tiles := UInt16.ofNat (Bytes.toNat args) }, none)
  | .drawTiles =>
    let x := Bytes.signed16 (Bytes.toNat (args.take 2))
    let y := Bytes.signed16 (Bytes.toNat (args.drop 2))
    let start := machine.tiles
    (machine.drawTiles start x y, none)
  | .halt =>
    let stop := machine.codeSize
    ({ machine with pc := stop }, none)

-- The error of a fault at a program counter.
def faultAt (program : Option Program) (pc : Int) (fault : RunFault) : MachineError :=
  match program with
  | some found => .runtime (found.lineOf pc) pc fault
  | none => .runtime 0 pc fault

-- The operation at the program counter with its operand bytes.
def fetch (machine : Machine) : Except RunFault (Operation × Bytes) :=
  let pc := machine.pc.toNat
  match machine.ram[pc]? with
  | none => .error .outsideMemory
  | some b =>
    match Operation.ofByte? b with
    | none => .error (.unknownByte b)
    | some op =>
      if machine.codeSize < pc + op.size then .error .operandsCut
      else
        match machine.bytesAt? (pc + 1) op.shape.width with
        | none => .error .outsideMemory
        | some args => .ok (op, args)

-- Executes one instruction. The answer tells whether the program has ended. A
-- program is only used to name the source line of an error.
def tick (program : Option Program) (machine : Machine) : Machine × Except MachineError Bool :=
  if ¬machine.booted then (machine, .error .notBooted)
  else if machine.done then (machine, .ok true)
  else
    let pc := machine.pc
    match machine.fetch with
    | .error fault => (machine, .error (faultAt program pc fault))
    | .ok (op, args) =>
      let moved := { machine with pc := pc + op.size, ticks := machine.ticks + 1 }
      match moved.perform op args with
      | (next, some fault) => (next, .error (faultAt program pc fault))
      | (next, none) => (next, .ok next.done)

-- A number of steps of a machine: where they led, how many were taken, and the
-- answer of the last.
structure Run where
  machine : Machine
  calls : Nat
  result : Except MachineError Bool

-- Takes up to `count` steps and stops at the first that ends or fails.
def runFrom (step : Machine → Machine × Except MachineError Bool) (calls : Nat) :
    Nat → Machine → Run
  | 0, machine => ⟨machine, calls, .ok false⟩
  | count + 1, machine =>
    match step machine with
    | (next, .ok false) => runFrom step (calls + 1) count next
    | (next, result) => ⟨next, calls + 1, result⟩

def run (step : Machine → Machine × Except MachineError Bool) (count : Nat) (machine : Machine) :
    Run :=
  runFrom step 0 count machine

-- Executes the instructions of one frame.
def frame (program : Option Program) (machine : Machine) : Machine × Except MachineError Bool :=
  let batch := run (tick program) cyclesPerFrame machine
  (batch.machine, batch.result)

-- What a verbose machine reports of the next instruction, if there is one.
def note? (machine : Machine) : Option Text :=
  if ¬machine.booted ∨ machine.done then none
  else
    match machine.fetch with
    | .error _ => none
    | .ok (op, args) =>
      let text := Disassembly.render op args
      some (Numeral.hex 4 machine.pc ++ ": " ++ text.padEnd 16 ++ " " ++ machine.registers)

-- The reports of up to `count` instructions.
def pushNotes (notes : Array Text) : Nat → Machine → Array Text
  | 0, _ => notes
  | count + 1, machine =>
    let noted := notes ++ machine.note?.toArray
    match tick none machine with
    | (next, .ok false) => pushNotes noted count next
    | _ => noted

def notes (count : Nat) (machine : Machine) : List Text :=
  (pushNotes #[] count machine).toList

end TileConsole.Machine
