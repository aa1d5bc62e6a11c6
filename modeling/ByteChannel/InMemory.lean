import ByteChannel.Bytes
import ByteChannel.Mode
import ByteChannel.Origin
import ByteChannel.Region

/-!
# Channels over bytes in memory

A channel over a sequence of bytes that never grows. Input and output keep positions of
their own, so output lands where its position is and input sees it when it comes there.
A direction that the mode lacks has an empty region and moves nothing.
-/

namespace ByteChannel

structure InMemory where
  data : Bytes
  mode : OpenMode
  get : Region
  put : Region

namespace InMemory

def ofBytes (data : Bytes) (mode : OpenMode) : InMemory where
  data := data
  mode := mode
  get := if mode.isReadable then .clamped 0 0 data.length else .empty
  put :=
    if mode.isWritable then .clamped 0 0 data.length
    else .clamped data.length data.length data.length

/-- The input still to come. -/
def getData (c : InMemory) : Bytes := slice c.data c.get.next c.get.limit

/-- The output so far. -/
def putData (c : InMemory) : Bytes := slice c.data c.put.base c.put.next

def getSize (c : InMemory) : Nat := c.get.available

def putSize (c : InMemory) : Nat := c.put.consumed

def getPos (c : InMemory) : Nat := c.get.consumed

def putPos (c : InMemory) : Nat := c.put.consumed

def read (c : InMemory) (n : Nat) : Bytes × InMemory :=
  let k := min n c.get.available
  (slice c.data c.get.next (c.get.next + k), { c with get := c.get.bump k })

/-- The next byte of input, which stays. -/
def peek (c : InMemory) : Option UInt8 :=
  if 0 < c.get.available then some (c.data.getD c.get.next 0) else none

def readByte (c : InMemory) : Option UInt8 × InMemory :=
  match c.peek with
  | some b => (some b, { c with get := c.get.bump 1 })
  | none => (none, c)

/-- One step back, over a byte that equals `b`. -/
def unread (c : InMemory) (b : UInt8) : Bool × InMemory :=
  match c.get.stepBack? with
  | some get => if c.data.getD get.next 0 = b then (true, { c with get := get }) else (false, c)
  | none => (false, c)

def write (c : InMemory) (src : Bytes) : Nat × InMemory :=
  let k := min src.length c.put.available
  (k, { c with data := overwrite c.data c.put.next (src.take k), put := c.put.bump k })

def writeByte (c : InMemory) (b : UInt8) : Bool × InMemory :=
  let (k, c) := c.write [b]
  (k == 1, c)

/-- What a seek does to one position: no displacement asks where it is, anything else moves it. -/
inductive Motion
  | report (pos : Nat)
  | move (region : Region) (pos : Nat)

def motion (r : Region) (origin : Origin) : Motion :=
  if origin = .current 0 then .report r.consumed
  else
    let pos := origin.clampedTarget r.consumed r.capacity
    .move (r.moveTo pos) pos

/-- Moves the positions that `side` selects and the mode has. The answer is the last one moved, or
the first one asked after. -/
def seek (c : InMemory) (origin : Origin) (side : Side) : Except ChannelError Nat × InMemory :=
  let onGet := side.includesGet && c.mode.isReadable
  let onPut := side.includesPut && c.mode.isWritable
  if onGet then
    match motion c.get origin with
    | .report pos => (.ok pos, c)
    | .move get getPos =>
      let c := { c with get := get }
      if onPut then
        match motion c.put origin with
        | .report pos => (.ok pos, c)
        | .move put putPos => (.ok putPos, { c with put := put })
      else (.ok getPos, c)
  else if onPut then
    match motion c.put origin with
    | .report pos => (.ok pos, c)
    | .move put putPos => (.ok putPos, { c with put := put })
  else (.error .noDirectionToSeek, c)

/-- As `write`, but a full sequence is a failure. -/
def tryWrite (c : InMemory) (src : Bytes) : Except IoError Nat × InMemory :=
  let (k, c) := c.write src
  if k = 0 ∧ src ≠ [] then (.error .endOfMemory, c) else (.ok k, c)

def trySeek (c : InMemory) (origin : Origin) : Except IoError Nat × InMemory :=
  let (r, c) := c.seek origin .both
  (r.mapError ChannelError.toIoError, c)

end InMemory

end ByteChannel
