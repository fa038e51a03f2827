import TileConsole.Machine.Tick
import TileConsole.Proofs.Machine.Drawing
import TileConsole.Proofs.Source.Offsets

namespace TileConsole

-- What the statements of a source ask for once their words have been read. A
-- jump names a statement by its number.
inductive Action where
  | nop
  | setA (value : UInt8)
  | setX (value : UInt16)
  | plot
  | jump (target : Nat)
  | setTiles (value : UInt16)
  | drawTiles (x y : Int)
  | halt
deriving DecidableEq, Repr

namespace Source

-- A word that spells a number of 16 bits.
def word? (word : Text) : Option UInt16 :=
  match Numeral.parse? word with
  | some n => if 0 ≤ n ∧ n ≤ 0xFFFF then some (UInt16.ofNat n.toNat) else none
  | none => none

def action? (lines : List Line) : Statement → Option Action
  | ⟨.nop, _⟩ => some .nop
  | ⟨.setA, word :: _⟩ =>
    (Numeral.parse? word).map fun n => .setA (UInt8.ofNat (n % 256).toNat)
  | ⟨.setX, word :: _⟩ => (word? word).map .setX
  | ⟨.plot, _⟩ => some .plot
  | ⟨.jump, word :: _⟩ => (target? lines word).map .jump
  | ⟨.setVram, word :: _⟩ => (word? word).map .setTiles
  | ⟨.drawTiles, first :: second :: _⟩ =>
    match word? first, word? second with
    | some x, some y => some (.drawTiles (Bytes.signed16 x.toNat) (Bytes.signed16 y.toNat))
    | _, _ => none
  | ⟨.halt, _⟩ => some .halt
  | _ => none

-- All statements of a source as actions, if they can all be read.
def actions? (lines : List Line) : Option (List Action) :=
  (statements lines).mapM (action? lines)

theorem word?_of_literal {word : Text} {n : Nat} (h : Numeral.Literal word n) (hn : n ≤ 0xFFFF) :
    word? word = some (UInt16.ofNat n) := by
  rw [word?, (Numeral.parse?_eq_some_iff word n).mpr h]
  exact if_pos ⟨Int.natCast_nonneg n, Int.ofNat_le.mpr hn⟩

end Source

-- A machine that executes the actions of a source by their number. It has
-- finished once the number is that of no action.
structure SourceMachine where
  index : Nat
  a : UInt8
  x : UInt16
  tiles : UInt16
  screen : Screen
  ticks : UInt64

namespace SourceMachine

def start : SourceMachine where
  index := 0
  a := 0
  x := 0
  tiles := 0
  screen := .blank
  ticks := 0

-- The screen has more pixels than there are numbers of 16 bits.
theorem lt_screen (x : UInt16) : x.toNat < screenWidth * screenHeight := by
  have := x.toNat_lt
  simp only [screenWidth, screenHeight]
  omega

-- Carries out an action once the machine has been moved to the next one.
-- `count` is the number of all actions.
def perform (count : Nat) (vram : VideoMemory) (machine : SourceMachine) :
    Action → SourceMachine
  | .nop => machine
  | .setA value => { machine with a := value }
  | .setX value => { machine with x := value }
  | .plot =>
    { machine with
      screen := machine.screen.set machine.x.toNat (machine.a &&& 0x0F) (lt_screen machine.x) }
  | .jump target => { machine with index := target }
  | .setTiles value => { machine with tiles := value }
  | .drawTiles x y =>
    { machine with screen := machine.screen.overlay vram machine.tiles.toNat x y }
  | .halt => { machine with index := count }

-- Executes one action. A machine that has finished stays as it is.
def step (actions : List Action) (vram : VideoMemory) (machine : SourceMachine) :
    SourceMachine :=
  match actions[machine.index]? with
  | none => machine
  | some action =>
    perform actions.length vram
      { machine with index := machine.index + 1, ticks := machine.ticks + 1 } action

end SourceMachine

end TileConsole
