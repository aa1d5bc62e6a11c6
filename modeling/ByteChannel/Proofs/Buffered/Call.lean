import ByteChannel.Buffered.Stream

/-!
# Calls on a buffered channel

The operations of an open channel as data, each with its answer, so that statements can speak of any
sequence of them. Showing what is at hand and taking a part of it is one call.
-/

namespace ByteChannel

inductive Call
  | read (n : Nat)
  | readByte
  | peek
  /-- Shows the bytes at hand and takes `n` of them, or all where fewer are shown. -/
  | fill (n : Nat)
  | unread (b : UInt8)
  | write (src : Bytes)
  | writeByte (b : UInt8)
  | overflow (b : UInt8)
  | flush
  | seek (o : Origin)
  | tell
  | install (buffer : Bytes)
  | resize (n : Nat)
  deriving DecidableEq, Repr

inductive Answer
  | bytes (bs : Bytes)
  | byte (b : Option UInt8)
  | shown (r : Except IoError Bytes)
  | count (k : Nat)
  | flag (accepted : Bool)
  | outcome (r : Except ChannelError Unit)
  | position (r : Except ChannelError Nat)

namespace Buffered

variable {σ : Type} [Device σ]

def fill (c : Buffered σ) (n : Nat) : Except IoError Bytes × Buffered σ :=
  let r := c.peekChunk
  match r.1 with
  | .ok bs => (.ok bs, r.2.advance (min n bs.length))
  | .error e => (.error e, r.2)

def perform (c : Buffered σ) : Call → Answer × Buffered σ
  | .read n => ((c.read n).map .bytes id)
  | .readByte => c.readByte.map .byte id
  | .peek => c.peek.map .byte id
  | .fill n => (c.fill n).map .shown id
  | .unread b => (c.unread b).map .flag id
  | .write src => (c.write src).map .count id
  | .writeByte b => (c.writeByte b).map .flag id
  | .overflow b => (c.overflow b).map .flag id
  | .flush => c.flush.map .outcome id
  | .seek o => (c.seek o).map .position id
  | .tell => c.tell.map .position id
  | .install buffer => (c.installBuffer buffer).map .outcome id
  | .resize n => (c.resizeBuffer n).map .outcome id

/-- One call after the other. -/
def performAll (c : Buffered σ) : List Call → List Answer × Buffered σ
  | [] => ([], c)
  | call :: calls =>
    let r := c.perform call
    let more := r.2.performAll calls
    (r.1 :: more.1, more.2)

end Buffered

end ByteChannel
