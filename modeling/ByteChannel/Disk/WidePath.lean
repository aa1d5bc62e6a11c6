import ByteChannel.Error

/-!
# Wide paths

A wide path is a list of 16-bit units, and ends at the first zero. A character outside
the basic plane takes two units, a high and a low surrogate; a surrogate that stands
alone makes the path invalid.
-/

namespace ByteChannel.WidePath

def isHigh (u : UInt16) : Bool := 0xD800 ≤ u && u < 0xDC00

def isLow (u : UInt16) : Bool := 0xDC00 ≤ u && u < 0xE000

/-- The character of a surrogate pair. -/
def pairChar (high low : UInt16) : Char :=
  Char.ofNat (0x10000 + (high.toNat - 0xD800) * 0x400 + (low.toNat - 0xDC00))

def decode : List UInt16 → Option (List Char)
  | [] => some []
  | [u] => if isHigh u || isLow u then none else some [Char.ofNat u.toNat]
  | u :: v :: us =>
    if isHigh u then
      if isLow v then (decode us).map (pairChar u v :: ·) else none
    else if isLow u then none
    else (decode (v :: us)).map (Char.ofNat u.toNat :: ·)

/-- The units of a character. -/
def units (c : Char) : List UInt16 :=
  if c.toNat < 0x10000 then [c.toNat.toUInt16]
  else
    let n := c.toNat - 0x10000
    [(0xD800 + n / 0x400).toUInt16, (0xDC00 + n % 0x400).toUInt16]

def encode (cs : List Char) : List UInt16 := cs.flatMap units

/-- The units before the first zero. -/
def visible (us : List UInt16) : List UInt16 := us.takeWhile (· != 0)

def toPath (us : List UInt16) : Except ChannelError String :=
  match decode (visible us) with
  | some cs => .ok (String.ofList cs)
  | none => .error (.invalidPath "invalid utf-16: lone surrogate found")

end ByteChannel.WidePath
