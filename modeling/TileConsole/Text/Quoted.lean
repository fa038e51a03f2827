import TileConsole.Numeral
import TileConsole.Text.Printable

namespace TileConsole

-- The letter that stands for a control character after a backslash.
def escapeLetter? (n : Nat) : Option Char :=
  match n with
  | 0x07 => some 'a'
  | 0x08 => some 'b'
  | 0x0C => some 'f'
  | 0x0A => some 'n'
  | 0x0D => some 'r'
  | 0x09 => some 't'
  | 0x0B => some 'v'
  | _ => none

-- A symbol as it stands between quotation marks. What does not show is written
-- by its number.
def Symbol.quoted : Symbol → Text
  | .stray b => "\\x" ++ Numeral.hex 2 b.toNat
  | .char c =>
    let n := c.toNat
    if c = '"' ∨ c = '\\' then [.char '\\', .char c]
    else if isPrintablePoint n then [.char c]
    else
      match escapeLetter? n with
      | some letter => [.char '\\', .char letter]
      | none =>
        if n < 0x80 then "\\x" ++ Numeral.hex 2 n
        else if n < 0x10000 then "\\u" ++ Numeral.hex 4 n
        else "\\U" ++ Numeral.hex 8 n

-- A text between quotation marks.
def Text.quoted (text : Text) : Text :=
  "\"" ++ text.flatMap Symbol.quoted ++ "\""

end TileConsole
