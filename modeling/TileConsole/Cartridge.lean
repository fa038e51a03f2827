import TileConsole.Numeral
import TileConsole.Storage

namespace TileConsole

-- A game on a cartridge: where its code starts, the code and the graphics.
structure Cartridge where
  entry : UInt32
  code : Bytes
  graphics : Bytes
deriving DecidableEq, Repr

inductive CartridgePart where
  | header
  | code
  | graphics
deriving DecidableEq, Repr

def CartridgePart.name : CartridgePart → Text
  | header => "header"
  | code => "code"
  | graphics => "gfx"

-- Why bytes are not a cartridge, or a cartridge has no bytes.
inductive CartridgeError where
  | notCartridge
  | truncated (part : CartridgePart) (want present : Nat)
  | sectionTooLarge
deriving DecidableEq, Repr

def CartridgeError.message : CartridgeError → Text
  | notCartridge => "not a BIRTH_EXEC cartridge"
  | truncated part want present =>
    part.name ++ " truncated: want " ++ Numeral.grouped want ++ " bytes, have " ++
      Numeral.grouped present
  | sectionTooLarge => "section larger than 4GiB"

-- Why a cartridge could not be loaded.
inductive LoadError where
  | unreadable (error : ReadError)
  | malformed (error : CartridgeError)
deriving DecidableEq, Repr

def LoadError.message : LoadError → Text
  | unreadable error => error.message
  | malformed error => error.message

-- Why a cartridge could not be saved.
inductive SaveError where
  | unwritable (error : WriteError)
  | malformed (error : CartridgeError)
deriving DecidableEq, Repr

def SaveError.message : SaveError → Text
  | unwritable error => error.message
  | malformed error => error.message

namespace Cartridge

-- The signature `BIRTH_EXEC`.
def magic : Bytes :=
  [0x42, 0x49, 0x52, 0x54, 0x48, 0x5F, 0x45, 0x58, 0x45, 0x43]

def headerSize : Nat := 22

-- The sizes of the sections are stored in 32 bits.
def maxSection : Nat := 0xFFFFFFFF

def empty : Cartridge :=
  ⟨0, [], []⟩

def ofSections (code graphics : Bytes) : Cartridge :=
  ⟨0, code, graphics⟩

def size (cartridge : Cartridge) : Nat :=
  headerSize + cartridge.code.length + cartridge.graphics.length

def toBytes (cartridge : Cartridge) : Except CartridgeError Bytes :=
  if maxSection < cartridge.code.length ∨ maxSection < cartridge.graphics.length then
    .error .sectionTooLarge
  else
    .ok (magic ++ Bytes.littleEndian 4 cartridge.entry.toNat ++
      Bytes.littleEndian 4 cartridge.code.length ++
      Bytes.littleEndian 4 cartridge.graphics.length ++ cartridge.code ++ cartridge.graphics)

-- The number in four bytes of the header.
def headerField (data : Bytes) (offset : Nat) : Nat :=
  Bytes.toNat ((data.drop offset).take 4)

-- Reads a cartridge. Bytes after the graphics are left alone.
def ofBytes (data : Bytes) : Except CartridgeError Cartridge :=
  if data.take magic.length ≠ magic then .error .notCartridge
  else if data.length < headerSize then .error (.truncated .header headerSize data.length)
  else
    let codeSize := headerField data 14
    let graphicsSize := headerField data 18
    let sections := data.drop headerSize
    let afterCode := sections.drop codeSize
    if sections.length < codeSize then .error (.truncated .code codeSize sections.length)
    else if afterCode.length < graphicsSize then
      .error (.truncated .graphics graphicsSize afterCode.length)
    else
      .ok ⟨UInt32.ofNat (headerField data 10), sections.take codeSize,
        afterCode.take graphicsSize⟩

-- Replaces a cartridge by the one that bytes hold. It stays as it was when they
-- hold none.
def replace (cartridge : Cartridge) (data : Bytes) : Cartridge × Option CartridgeError :=
  match ofBytes data with
  | .ok other => (other, none)
  | .error error => (cartridge, some error)

-- Replaces a cartridge by the one in a stream. The number of bytes read counts
-- those before a failure.
def receive (cartridge : Cartridge) (source : Stream) :
    Cartridge × Nat × Option LoadError :=
  match source.failure with
  | some error => (cartridge, source.bytes.length, some (.unreadable error))
  | none =>
    match cartridge.replace source.bytes with
    | (next, none) => (next, source.bytes.length, none)
    | (next, some error) => (next, source.bytes.length, some (.malformed error))

-- Writes a cartridge in one write to a writer with room for `capacity` bytes,
-- or for any number. The bytes are those that the writer took.
def send (cartridge : Cartridge) (capacity : Option Nat) : Bytes × Option SaveError :=
  match cartridge.toBytes, capacity with
  | .error error, _ => ([], some (.malformed error))
  | .ok data, none => (data, none)
  | .ok data, some room =>
    if data.length ≤ room then (data, none)
    else (data.take room, some (.unwritable .interrupted))

-- Writes a cartridge to a file once its bytes are there.
def saveWith (write : Storage.Writer) (cartridge : Cartridge) (storage : Storage) (path : Text) :
    Except SaveError Storage :=
  match cartridge.toBytes with
  | .error error => .error (.malformed error)
  | .ok data =>
    match write storage path data with
    | .error error => .error (.unwritable error)
    | .ok next => .ok next

def save (cartridge : Cartridge) (storage : Storage) (path : Text) : Except SaveError Storage :=
  cartridge.saveWith Storage.writer storage path

def load (storage : Storage) (path : Text) : Except LoadError Cartridge :=
  match storage.read path with
  | .error error => .error (.unreadable (.file error))
  | .ok data =>
    match ofBytes data with
    | .error error => .error (.malformed error)
    | .ok cartridge => .ok cartridge

end Cartridge

end TileConsole
