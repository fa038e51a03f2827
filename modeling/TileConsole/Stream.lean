import TileConsole.Bytes
import TileConsole.Text.Basic

namespace TileConsole

-- What a file was wanted for when it failed.
inductive FileAction where
  | opening
  | reading
deriving DecidableEq, Repr

inductive FileProblem where
  | missing
  | isDirectory
  | notDirectory
  | invalid
  | nameTooLong
deriving DecidableEq, Repr

structure FileError where
  action : FileAction
  path : Text
  problem : FileProblem
deriving DecidableEq, Repr

def FileAction.name : FileAction → Text
  | opening => "open"
  | reading => "read"

def FileProblem.message : FileProblem → Text
  | missing => "no such file or directory"
  | isDirectory => "is a directory"
  | notDirectory => "not a directory"
  | invalid => "invalid argument"
  | nameTooLong => "file name too long"

def FileError.message (error : FileError) : Text :=
  error.action.name ++ " " ++ error.path ++ ": " ++ error.problem.message

-- Why the bytes of a stream stopped before its end.
inductive ReadError where
  | interrupted
  | file (error : FileError)
deriving DecidableEq, Repr

def ReadError.message : ReadError → Text
  | interrupted => "read failed"
  | file error => error.message

-- Why bytes could not be written.
inductive WriteError where
  | interrupted
  | file (error : FileError)
deriving DecidableEq, Repr

def WriteError.message : WriteError → Text
  | interrupted => "write failed"
  | file error => error.message

-- A source of bytes: those that arrive, and what stopped them if it was not
-- the end.
structure Stream where
  bytes : Bytes
  failure : Option ReadError
deriving DecidableEq, Repr

-- A stream that delivers everything.
def Stream.whole (bytes : Bytes) : Stream :=
  ⟨bytes, none⟩

-- A stream that is interrupted after at most `count` bytes.
def Stream.cutAt (count : Nat) (bytes : Bytes) : Stream :=
  ⟨bytes.take count, some .interrupted⟩

end TileConsole
