import TileConsole.Text.Basic

namespace TileConsole.Numeral

-- Natural numbers in plain decimal.
def decimal (n : Nat) : Text :=
  (Nat.toDigits 10 n).map .char

def decimalInt (n : Int) : Text :=
  if n < 0 then .char '-' :: decimal n.natAbs else decimal n.natAbs

-- A comma stands before every digit that has a multiple of three digits from
-- itself to the end, the first digit apart.
def group : List Char → List Char
  | [] => []
  | [c] => [c]
  | c :: d :: rest =>
    if (rest.length + 1) % 3 = 0 then c :: ',' :: group (d :: rest) else c :: group (d :: rest)

-- Numbers in messages for people have their digits in groups of three.
def grouped (n : Int) : Text :=
  let digits := (group (Nat.toDigits 10 n.natAbs)).map Symbol.char
  if n < 0 then .char '-' :: digits else digits

-- Digits filled up with zeros on the left.
def padZero (width : Nat) (digits : List Char) : List Char :=
  List.replicate (width - digits.length) '0' ++ digits

-- Hexadecimal in at least `width` places; the sign takes one of them.
def hex (width : Nat) (n : Int) : Text :=
  let digits := Nat.toDigits 16 n.natAbs
  if n < 0 then .char '-' :: (padZero (width - 1) digits).map .char
  else (padZero width digits).map .char

-- Bytes as pairs of hexadecimal digits with blanks between them.
def hexDump (bytes : List UInt8) : Text :=
  [Symbol.char ' '].intercalate (bytes.map fun b => hex 2 b.toNat)

-- A symbol read as an ASCII digit.
def digit? : Symbol → Option Char
  | .char c => if c.isDigit then some c else none
  | .stray _ => none

-- The digits of a text that holds ASCII digits only, and at least one.
def digits? (text : Text) : Option (List Char) :=
  if text = [] then none else text.mapM digit?

-- The signed 64-bit integers.
def fitsInt64 (n : Int) : Bool :=
  -0x8000000000000000 ≤ n && n < 0x8000000000000000

-- The 64-bit integer that has the low 64 bits of a number.
def wrapInt64 (n : Int) : Int :=
  n.bmod 0x10000000000000000

theorem wrapInt64_eq_self {n : Int} (h : fitsInt64 n) : wrapInt64 n = n := by
  simp only [fitsInt64, Bool.and_eq_true, decide_eq_true_eq] at h
  exact Int.bmod_eq_of_le (by omega) (by omega)

-- The value of digits under a sign, if it is one of these integers.
def signed? (sign : Int) (text : Text) : Option Int :=
  match digits? text with
  | none => none
  | some digits =>
    let n := sign * (Nat.ofDigitChars 10 digits 0 : Nat)
    if fitsInt64 n then some n else none

-- Reads an optionally signed decimal integer of 64 bits.
def parse? (text : Text) : Option Int :=
  match text with
  | .char '-' :: rest => signed? (-1) rest
  | .char '+' :: rest => signed? 1 rest
  | _ => signed? 1 text

end TileConsole.Numeral
