import TileConsole.Text.Basic

namespace TileConsole

-- The characters that count as white space, by code point.
def isBlankPoint (n : Nat) : Bool :=
  (0x09 ≤ n && n ≤ 0x0D) || n == 0x20 || n == 0x85 || n == 0xA0 || n == 0x1680 ||
    (0x2000 ≤ n && n ≤ 0x200A) || n == 0x2028 || n == 0x2029 || n == 0x202F || n == 0x205F ||
    n == 0x3000

-- A stray byte is never blank.
def Symbol.isBlank : Symbol → Bool
  | .char c => isBlankPoint c.toNat
  | .stray _ => false

namespace Text

def trimStart (text : Text) : Text :=
  text.dropWhile Symbol.isBlank

def trimEnd (text : Text) : Text :=
  (text.reverse.dropWhile Symbol.isBlank).reverse

def trim (text : Text) : Text :=
  text.trimStart.trimEnd

-- Takes one given symbol off the front, if it is there.
def stripFirst (s : Symbol) : Text → Text
  | [] => []
  | t :: rest => if t = s then rest else t :: rest

-- Takes one given symbol off the end, if it is there.
def stripLast (s : Symbol) (text : Text) : Text :=
  (stripFirst s text.reverse).reverse

-- The maximal runs without a separator. The flag says whether the leftmost
-- run found so far is still open to the left.
def wordsStep (separates : Symbol → Bool) (s : Symbol) : Bool × List Text → Bool × List Text
  | (isOpen, found) =>
    if separates s then (false, found)
    else
      match isOpen, found with
      | true, word :: others => (true, (s :: word) :: others)
      | _, _ => (true, [s] :: found)

def words (separates : Symbol → Bool) (text : Text) : List Text :=
  (text.foldr (wordsStep separates) (false, [])).2

-- Adds a symbol on the left of a list of lines. A line feed ends a line, so it
-- opens an empty one to its left; any other symbol belongs to the first line.
def linesStep (s : Symbol) (found : List Text) : List Text :=
  if s = newline then [] :: found
  else
    match found with
    | [] => [[s]]
    | line :: others => (s :: line) :: others

-- The lines of a text without their line feeds. What follows the last line
-- feed is a line only if it is not empty.
def lines (text : Text) : List Text :=
  text.foldr linesStep []

end Text

end TileConsole
