namespace TileConsole

-- One unit of a text. Texts come from files and arguments that need not be
-- valid UTF-8, so a byte that belongs to no character stands for itself.
inductive Symbol where
  | char (c : Char)
  | stray (b : UInt8)
deriving DecidableEq, Inhabited, Repr

abbrev Text := List Symbol

namespace Symbol

def bytes : Symbol → List UInt8
  | char c => String.utf8EncodeChar c
  | stray b => [b]

-- A byte that continues a character of several bytes.
def continues (b : UInt8) : Bool :=
  0x80 ≤ b && b ≤ 0xBF

-- The lead bytes C0 and C1 would only give characters that have a shorter form.
def isPair (a b : UInt8) : Bool :=
  0xC2 ≤ a && a ≤ 0xDF && continues b

-- Three bytes make a character unless a shorter form exists (after E0) or the
-- result is a surrogate (after ED).
def isTriple (a b c : UInt8) : Bool :=
  0xE0 ≤ a && a ≤ 0xEF && continues b && continues c &&
    (a != 0xE0 || 0xA0 ≤ b) && (a != 0xED || b ≤ 0x9F)

-- Four bytes make a character unless a shorter form exists (after F0) or the
-- result lies past the last code point (after F4).
def isQuadruple (a b c d : UInt8) : Bool :=
  0xF0 ≤ a && a ≤ 0xF4 && continues b && continues c && continues d &&
    (a != 0xF0 || 0x90 ≤ b) && (a != 0xF4 || b ≤ 0x8F)

-- The low six bits that a continuation byte adds.
def payload (b : UInt8) : Nat :=
  b.toNat % 64

-- The first symbol of a nonempty byte string, and the bytes after it. A byte
-- that starts no complete character is a symbol of its own.
def first (a : UInt8) (rest : List UInt8) : Symbol × List UInt8 :=
  if a < 0x80 then (char (Char.ofNat a.toNat), rest)
  else
    match rest with
    | [] => (stray a, rest)
    | b :: afterPair =>
      if isPair a b then (char (Char.ofNat (a.toNat % 32 * 64 + payload b)), afterPair)
      else
        match afterPair with
        | [] => (stray a, rest)
        | c :: afterTriple =>
          if isTriple a b c then
            (char (Char.ofNat ((a.toNat % 16 * 64 + payload b) * 64 + payload c)), afterTriple)
          else
            match afterTriple with
            | [] => (stray a, rest)
            | d :: afterAll =>
              if isQuadruple a b c d then
                (char (Char.ofNat
                  (((a.toNat % 8 * 64 + payload b) * 64 + payload c) * 64 + payload d)), afterAll)
              else (stray a, rest)

theorem length_first_le (a : UInt8) (rest : List UInt8) :
    (first a rest).2.length ≤ rest.length := by
  unfold first
  repeat' split
  all_goals simp
  all_goals omega

end Symbol

namespace Text

def ofString (s : String) : Text :=
  s.toList.map .char

instance : Coe String Text := ⟨ofString⟩

-- The symbols are collected from the left, so the depth of the recursion does
-- not grow with the text.
def pushBytes (found : Array Symbol) : List UInt8 → Array Symbol
  | [] => found
  | a :: rest => pushBytes (found.push (Symbol.first a rest).1) (Symbol.first a rest).2
termination_by bytes => bytes.length
decreasing_by
  have := Symbol.length_first_le a rest
  simp only [List.length_cons]
  omega

def ofBytes (bytes : List UInt8) : Text :=
  (pushBytes #[] bytes).toList

def toBytes (text : Text) : List UInt8 :=
  text.flatMap Symbol.bytes

-- The text as a string, if it has no stray byte.
def toString? (text : Text) : Option String :=
  (text.foldl (fun found s =>
    match found, s with
    | some string, .char c => some (string.push c)
    | _, _ => none) (some ""))

-- Texts are ordered by their bytes, as file names are.
def le (a b : Text) : Bool :=
  decide (a.toBytes ≤ b.toBytes)

-- Fills a text up with blanks on the right.
def padEnd (width : Nat) (text : Text) : Text :=
  text ++ List.replicate (width - text.length) (.char ' ')

def newline : Symbol := .char '\n'

-- A text as it is written on a line of its own: the line feed is added unless
-- the text already ends in one.
def asLine (text : Text) : Text :=
  if text.getLast? = some newline then text else text ++ [newline]

end Text

end TileConsole
