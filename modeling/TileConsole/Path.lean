import TileConsole.Stream
import TileConsole.Text.Blank

namespace TileConsole

-- A directory that is always there: the root, or the one some levels above the
-- working directory, which is itself no level above.
inductive Base where
  | root
  | above (levels : Nat)
deriving DecidableEq, Repr

-- Where a file or a directory can be: the names that lead to it from a base.
structure Place where
  base : Base
  names : List Text
deriving DecidableEq, Repr

namespace Place

def child (place : Place) (name : Text) : Place :=
  ⟨place.base, place.names ++ [name]⟩

-- The directory that holds a place. The root holds itself.
def parent (place : Place) : Place :=
  match place.names with
  | [] =>
    match place.base with
    | .root => place
    | .above levels => ⟨.above (levels + 1), []⟩
  | _ => ⟨place.base, place.names.dropLast⟩

-- The directories between its base and a place, the outermost first.
def ancestors (place : Place) : List Place :=
  (List.range place.names.length).tail.map fun count => ⟨place.base, place.names.take count⟩

end Place

-- A path by its names. One that ends in a slash can only be a directory.
structure Path where
  base : Base
  names : List Text
  endsInSlash : Bool
deriving DecidableEq, Repr

namespace Path

def slash : Symbol := .char '/'

-- The name of a directory in itself.
def here : Text := "."

-- The name of the directory above in a directory.
def up : Text := ".."

def ofText (text : Text) : Path where
  base := if text.head? = some slash then .root else .above 0
  names := text.words (· == slash)
  endsInSlash := decide (text.getLast? = some slash)

-- The paths to the directories on the way to a path, and the path itself.
def stages (path : Path) : List Text :=
  let start : Text := if path.base = .root then [slash] else []
  (List.range path.names.length).map fun count =>
    start ++ [slash].intercalate (path.names.take (count + 1))

-- The longest name and the longest path, in bytes.
def maxName : Nat := 255

def maxPath : Nat := 4095

-- What is wrong with a path, wherever it may lead.
def problem? (text : Text) : Option FileProblem :=
  if .char (Char.ofNat 0) ∈ text then some .invalid
  else if text = [] then some .missing
  else if maxPath < text.toBytes.length then some .nameTooLong
  else none

-- The place of a name in a directory.
def follow (directory : Place) (name : Text) : Place :=
  if name = here then directory
  else if name = up then directory.parent
  else directory.child name

-- The place that a path leads to through directories that are all there.
def place (path : Path) : Place :=
  path.names.foldl follow ⟨path.base, []⟩

end Path

end TileConsole
