import TileConsole.Text.Blank
import TileConsole.Text.UpperCase

namespace TileConsole

-- What a source line says. Lines of another kind take no space.
inductive LineKind where
  | label (name : Text)
  | instruction (mnemonic : Text) (operands : List Text)
  | other
deriving DecidableEq, Repr

-- A line with its number in the source and its text without the comment.
structure Line where
  number : Int
  text : Text
  kind : LineKind
deriving DecidableEq, Repr

-- What becomes of a raw line. One that holds only commas and white space says
-- nothing, but it has a text.
inductive LineReading where
  | blank
  | separators (text : Text)
  | line (line : Line)
deriving DecidableEq, Repr

namespace Line

def commentMark : Symbol := .char ';'

def labelMark : Symbol := .char '@'

def labelEnd : Symbol := .char ':'

-- Operands are divided by white space and commas alike.
def separates (s : Symbol) : Bool :=
  s.isBlank || s == .char ','

-- The text in front of a comment, without white space around it.
def content (raw : Text) : Text :=
  Text.trim (raw.takeWhile (· != commentMark))

-- The name that a line declares after its mark.
def labelName (marked : Text) : Text :=
  Text.trim (marked.stripLast labelEnd)

def read (raw : Text) (number : Int) : LineReading :=
  match content raw with
  | [] => .blank
  | s :: rest =>
    if s = labelMark then .line ⟨number, s :: rest, .label (labelName rest)⟩
    else
      match Text.words separates (s :: rest) with
      | [] => .separators (s :: rest)
      | mnemonic :: operands =>
        .line ⟨number, s :: rest, .instruction (Text.upper mnemonic) operands⟩

def read? (raw : Text) (number : Int) : Option Line :=
  match read raw number with
  | .line line => some line
  | _ => none

-- The raw lines of a source. A line may end in a carriage return.
def rawLines (source : Text) : List Text :=
  source.lines.map (Text.stripLast (.char '\r'))

-- The lines of a source that say something, numbered from one.
def readAll (source : Text) : List Line :=
  ((rawLines source).zipIdx 1).filterMap fun (raw, number) => read? raw number

end Line

end TileConsole
