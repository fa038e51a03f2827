namespace TileConsole

-- A colour in 16 bits a channel, with the channels already scaled by alpha.
structure Color where
  red : UInt16
  green : UInt16
  blue : UInt16
  alpha : UInt16
deriving DecidableEq, Inhabited, Repr

namespace Color

-- Spreads 8 bits over 16.
def widen (v : UInt8) : Nat :=
  v.toNat * 257

-- Channels given as numbers below 65536.
def ofNats (red green blue alpha : Nat) : Color :=
  ⟨UInt16.ofNat red, UInt16.ofNat green, UInt16.ofNat blue, UInt16.ofNat alpha⟩

def grey (level : Nat) : Color :=
  ofNats level level level 0xFFFF

def black : Color :=
  grey 0

-- Colours in the order of their red, green, blue and alpha channels.
def le (c d : Color) : Bool :=
  if c.red ≠ d.red then c.red < d.red
  else if c.green ≠ d.green then c.green < d.green
  else if c.blue ≠ d.blue then c.blue < d.blue
  else c.alpha ≤ d.alpha

-- A quarter of the squared difference of two channels.
def channelDistance (u v : UInt16) : Nat :=
  let d := if u ≤ v then v.toNat - u.toNat else u.toNat - v.toNat
  d * d / 4

-- How unlike two colours are. Channels that differ by one count as equal.
def distance (c d : Color) : Nat :=
  channelDistance c.red d.red + channelDistance c.green d.green +
    channelDistance c.blue d.blue + channelDistance c.alpha d.alpha

end Color

end TileConsole
