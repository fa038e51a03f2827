import TileConsole.Text.Quoted

namespace TileConsole

-- Why a text is not a number that an option takes.
inductive LiteralError where
  | malformed
  | outOfRange
deriving DecidableEq, Repr

def LiteralError.message : LiteralError → Text
  | malformed => "parse error"
  | outOfRange => "value out of range"

namespace Literal

-- The value of a digit in some base up to 36.
def digitValue? : Symbol → Option Nat
  | .char c =>
    if c.isDigit then some (c.toNat - '0'.toNat)
    else if 'a' ≤ c ∧ c ≤ 'z' then some (c.toNat - 'a'.toNat + 10)
    else if 'A' ≤ c ∧ c ≤ 'Z' then some (c.toNat - 'A'.toNat + 10)
    else none
  | .stray _ => none

def underscore : Symbol := .char '_'

-- The base that a number announces, and its digits. A leading zero alone
-- announces octal.
def splitBase : Text → Nat × Text
  | .char '0' :: .char letter :: digit :: rest =>
    if letter = 'b' ∨ letter = 'B' then (2, digit :: rest)
    else if letter = 'o' ∨ letter = 'O' then (8, digit :: rest)
    else if letter = 'x' ∨ letter = 'X' then (16, digit :: rest)
    else (8, .char letter :: digit :: rest)
  | .char '0' :: rest => (8, rest)
  | text => (10, text)

-- The value of digits, which may have underscores among them. A number that
-- needs more than 64 bits is out of range whatever follows.
def valueFrom (base n : Nat) : Text → Except LiteralError Nat
  | [] => .ok n
  | s :: rest =>
    if s = underscore then valueFrom base n rest
    else
      match digitValue? s with
      | none => .error .malformed
      | some d =>
        if base ≤ d then .error .malformed
        else if 0x10000000000000000 ≤ n * base + d then .error .outOfRange
        else valueFrom base (n * base + d) rest

-- Underscores may only stand between digits. `afterDigit` tells whether the
-- symbol before was one.
def underscoresFit (isDigit : Symbol → Bool) (afterDigit afterUnderscore : Bool) : Text → Bool
  | [] => !afterUnderscore
  | s :: rest =>
    if isDigit s then underscoresFit isDigit true false rest
    else if s = underscore then afterDigit && underscoresFit isDigit false true rest
    else !afterUnderscore && underscoresFit isDigit false false rest

-- The underscores of a number fit. The mark of a base counts as a digit.
def hasFittingUnderscores (text : Text) : Bool :=
  let isDecimal (s : Symbol) : Bool := (digitValue? s).any (· < 10)
  let isHex (s : Symbol) : Bool := (digitValue? s).any (· < 16)
  match text with
  | .char '0' :: .char letter :: rest =>
    if letter = 'x' ∨ letter = 'X' then underscoresFit isHex true false rest
    else if letter = 'b' ∨ letter = 'B' ∨ letter = 'o' ∨ letter = 'O' then
      underscoresFit isDecimal true false rest
    else underscoresFit isDecimal false false text
  | _ => underscoresFit isDecimal false false text

def unsigned (text : Text) : Except LiteralError Nat :=
  if text = [] then .error .malformed
  else
    let (base, digits) := splitBase text
    match valueFrom base 0 digits with
    | .error error => .error error
    | .ok n =>
      if underscore ∈ digits ∧ ¬hasFittingUnderscores text then .error .malformed else .ok n

-- A signed 64-bit number in the base that it announces.
def signed (text : Text) : Except LiteralError Int :=
  let (sign, digits) : Int × Text :=
    match text with
    | .char '-' :: rest => (-1, rest)
    | .char '+' :: rest => (1, rest)
    | _ => (1, text)
  match unsigned digits with
  | .error error => .error error
  | .ok n => if Numeral.fitsInt64 (sign * n) then .ok (sign * n) else .error .outOfRange

-- The words for a switch.
def switch? (text : Text) : Option Bool :=
  let on : List Text := ["1", "t", "T", "TRUE", "true", "True"]
  let off : List Text := ["0", "f", "F", "FALSE", "false", "False"]
  if text ∈ on then some true else if text ∈ off then some false else none

end Literal

-- What an option takes. Only a switch can stand without a value.
inductive FlagKind where
  | switch
  | number
  | text
deriving DecidableEq, Repr

structure Flag where
  name : Text
  kind : FlagKind
deriving DecidableEq, Repr

inductive FlagValue where
  | switch (on : Bool)
  | number (n : Int)
  | text (value : Text)
deriving DecidableEq, Repr

-- Why the arguments of a command are not carried out.
inductive FlagStop where
  | help
  | badForm (argument : Text)
  | undefined (name : Text)
  | valueMissing (name : Text)
  | badSwitch (value name : Text)
  | badValue (value name : Text) (error : LiteralError)
deriving DecidableEq, Repr

-- What is said in front of the usage. Asking for help is no error.
def FlagStop.message? : FlagStop → Option Text
  | help => none
  | badForm argument => some ("bad flag syntax: " ++ argument)
  | undefined name => some ("flag provided but not defined: -" ++ name)
  | valueMissing name => some ("flag needs an argument: -" ++ name)
  | badSwitch value name =>
    some ("invalid boolean value " ++ value.quoted ++ " for -" ++ name ++ ": " ++
      LiteralError.message .malformed)
  | badValue value name error =>
    some ("invalid value " ++ value.quoted ++ " for flag -" ++ name ++ ": " ++ error.message)

-- The options that were given, the last one first, and the other arguments.
structure Arguments where
  given : List (Text × FlagValue)
  operands : List Text
deriving DecidableEq, Repr

namespace Arguments

def switch (arguments : Arguments) (name : Text) : Bool :=
  match arguments.given.lookup name with
  | some (.switch on) => on
  | _ => false

def number (arguments : Arguments) (name : Text) (default : Int) : Int :=
  match arguments.given.lookup name with
  | some (.number n) => n
  | _ => default

def text (arguments : Arguments) (name : Text) : Text :=
  match arguments.given.lookup name with
  | some (.text value) => value
  | _ => []

-- One argument by its form: the end of the options, a mere argument, or an
-- option with the value after its equals sign.
inductive Form where
  | operand
  | endMark
  | malformed
  | option (name : Text) (value : Option Text)
deriving DecidableEq, Repr

-- The name of an option and what follows the first equals sign.
def splitValue (text : Text) : Text × Option Text :=
  let equals : Symbol := .char '='
  match text.dropWhile (· != equals) with
  | [] => (text, none)
  | _ :: value => (text.takeWhile (· != equals), some value)

def optionForm (body : Text) : Form :=
  match body with
  | [] => .malformed
  | .char '-' :: _ => .malformed
  | .char '=' :: _ => .malformed
  | _ => .option (splitValue body).1 (splitValue body).2

-- Options start with one hyphen or two.
def form : Text → Form
  | [.char '-'] => .operand
  | [.char '-', .char '-'] => .endMark
  | .char '-' :: .char '-' :: body => optionForm body
  | .char '-' :: body => optionForm body
  | _ => .operand

-- Checks the value of an option that takes one.
def readValue (flag : Flag) (value : Text) : Except FlagStop FlagValue :=
  match flag.kind with
  | .switch =>
    match Literal.switch? value with
    | some on => .ok (.switch on)
    | none => .error (.badSwitch value flag.name)
  | .number =>
    match Literal.signed value with
    | .ok n => .ok (.number n)
    | .error error => .error (.badValue value flag.name error)
  | .text => .ok (.text value)

-- An option that is not known. Help is always understood.
def unknown (name : Text) : FlagStop :=
  if name ∈ (["help", "h"] : List Text) then .help else .undefined name

-- Reads options up to the first argument that is none.
def parseFrom (flags : List Flag) (given : List (Text × FlagValue)) :
    List Text → Except FlagStop Arguments
  | [] => .ok ⟨given, []⟩
  | argument :: rest =>
    match form argument with
    | .operand => .ok ⟨given, argument :: rest⟩
    | .endMark => .ok ⟨given, rest⟩
    | .malformed => .error (.badForm argument)
    | .option name value? =>
      match flags.find? (·.name == name) with
      | none => .error (unknown name)
      | some flag =>
        match value? with
        | some value =>
          match readValue flag value with
          | .error stop => .error stop
          | .ok found => parseFrom flags ((name, found) :: given) rest
        | none =>
          if flag.kind = .switch then parseFrom flags ((name, .switch true) :: given) rest
          else
            match rest with
            | [] => .error (.valueMissing name)
            | value :: others =>
              match readValue flag value with
              | .error stop => .error stop
              | .ok found => parseFrom flags ((name, found) :: given) others

def parse (flags : List Flag) (arguments : List Text) : Except FlagStop Arguments :=
  parseFrom flags [] arguments

end Arguments

end TileConsole
