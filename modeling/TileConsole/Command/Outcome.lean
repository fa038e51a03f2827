import TileConsole.Command.Flags
import TileConsole.Storage

namespace TileConsole

-- What a command leaves behind: its exit status, what it printed, what it
-- reported, and the files.
structure Outcome where
  status : Nat
  output : Text
  messages : List Text
  storage : Storage
deriving DecidableEq, Repr

namespace Outcome

-- The reports as they are written, each on a line of its own.
def report (outcome : Outcome) : Text :=
  outcome.messages.flatMap Text.asLine

-- A command that only explains itself.
def explain (status : Nat) (messages : List Text) (storage : Storage) : Outcome :=
  ⟨status, [], messages, storage⟩

-- What becomes of a command whose options were not understood. Only a plea for
-- help succeeds. A line feed follows the complaint even if it ends in one.
def ofStop (stop : FlagStop) (usage : List Text) (storage : Storage) : Outcome :=
  match stop.message? with
  | none => explain 0 usage storage
  | some message => explain 2 ((message ++ [Text.newline]) :: usage) storage

end Outcome

end TileConsole
