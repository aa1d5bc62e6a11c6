import ByteChannel.Buffered.Input
import ByteChannel.Buffered.Output
import ByteChannel.Buffered.Session

/-!
# The failing face of a buffered channel

The transfers of a channel answer short and latch what went wrong. The ones here report
it: a transfer that moved nothing takes the latched failure and fails with it. On top
of them stand reads up to the end and up to a given byte.
-/

namespace ByteChannel.Buffered

variable {σ : Type} [Device σ]

def tryRead (c : Buffered σ) (n : Nat) : Except IoError Bytes × Buffered σ :=
  if c.isOpen = false then (.error ChannelError.notOpen.toIoError, c)
  else
    let r := c.read n
    if r.1 = [] ∧ n ≠ 0 then
      match r.2.error with
      | some e => (.error e, { r.2 with error := none })
      | none => (.ok [], r.2)
    else (.ok r.1, r.2)

def tryWrite (c : Buffered σ) (src : Bytes) : Except IoError Nat × Buffered σ :=
  if c.isOpen = false then (.error ChannelError.notOpen.toIoError, c)
  else
    let r := c.write src
    if r.1 = 0 ∧ src ≠ [] then
      (.error (r.2.error.getD .outputRefused), { r.2 with error := none })
    else (.ok r.1, r.2)

def tryFlush (c : Buffered σ) : Except IoError Unit × Buffered σ :=
  let r := c.flush
  (r.1.mapError ChannelError.toIoError, r.2)

def trySeek (c : Buffered σ) (o : Origin) : Except IoError Nat × Buffered σ :=
  let r := c.seek o
  (r.1.mapError ChannelError.toIoError, r.2)

def ahead (c : Buffered σ) : Bytes :=
  if c.onCell then slice [c.cell] c.get.next c.get.limit
  else slice c.buffer c.get.next c.get.limit

def peekChunk (c : Buffered σ) : Except IoError Bytes × Buffered σ :=
  if c.get.available = 0 then
    let r := c.peek
    match r.1 with
    | some _ => (.ok r.2.ahead, r.2)
    | none =>
      match r.2.error with
      | some e => (.error e, { r.2 with error := none })
      | none => (.ok [], r.2)
  else (.ok c.ahead, c)

/-- Counts bytes at hand as read. The amount is the caller's. -/
def consume? (c : Buffered σ) (n : Nat) : Option (Buffered σ) :=
  (c.get.bump? n).map fun get => { c with get := get, pushedBack := false }

/-- The bytes to the end of input, `limit` at most. After the first byte those at hand go along. -/
def readToEnd (c : Buffered σ) (limit : Nat) : Bytes × Buffered σ :=
  match limit with
  | 0 => ([], c)
  | limit + 1 =>
    let r := c.readByte
    match r.1 with
    | none => ([], r.2)
    | some b =>
      let along := r.2.ahead.take limit
      let more := readToEnd (r.2.advance along.length) (limit - along.length)
      (b :: along ++ more.1, more.2)
termination_by limit

/-- The bytes through the first `b`, or to the end of input, from `limit` chunks at most. Every
chunk counts as read, also the empty one at the end, after which a byte may be pushed back. -/
def readThrough (c : Buffered σ) (b : UInt8) : (limit : Nat) → Except IoError Bytes × Buffered σ
  | 0 => (.ok [], c)
  | limit + 1 =>
    let r := c.peekChunk
    match r.1 with
    | .error e => (.error e, r.2)
    | .ok chunk =>
      if chunk = [] then (.ok [], r.2.advance 0)
      else if b ∈ chunk then
        let found := chunk.takeWhile (· != b) ++ [b]
        (.ok found, r.2.advance found.length)
      else
        let more := readThrough (r.2.advance chunk.length) b limit
        (more.1.map (chunk ++ ·), more.2)

end ByteChannel.Buffered
