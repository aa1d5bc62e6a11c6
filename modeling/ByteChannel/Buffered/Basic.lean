import ByteChannel.Mode
import ByteChannel.Region
import ByteChannel.Text.Collapsed
import ByteChannel.Text.Expander

/-!
# Buffered channels

A buffered channel has one buffer and two regions over it: the get region holds bytes
read ahead, the put region bytes not yet written. One more byte, the cell, takes what
was pushed back where the buffer has no place for it; the bytes read ahead then stay
parked in the buffer. Transfers that fail leave their first failure latched.
-/

namespace ByteChannel

/-- What becomes of line ends in a channel that is not opened as binary. -/
inductive TextPolicy
  | native | translate | binary
  deriving DecidableEq, Repr, Inhabited

/-- The native text form has one-byte line ends. -/
def TextPolicy.translates (p : TextPolicy) : Bool := p == translate

structure Settings where
  bufferSize : Nat := defaultBufferSize
  textPolicy : TextPolicy := .native
  deriving DecidableEq, Repr, Inhabited

structure Buffered (σ : Type) where
  device : Option σ := none
  settings : Settings := {}
  mode : OpenMode := .noAccess
  text : Bool := false
  buffer : Bytes := []
  /-- The caller put in the buffer, so that it outlives the opening. -/
  adopted : Bool := false
  get : Region := .empty
  /-- The get region is over the cell in place of the buffer. -/
  onCell : Bool := false
  put : Region := .empty
  /-- How many bytes of the buffer were read ahead. -/
  filled : Nat := 0
  cell : UInt8 := 0
  pushedBack : Bool := false
  expander : Option Text.Expander := none
  error : Option IoError := none

namespace Buffered

variable {σ : Type}

def withSettings (o : Settings) : Buffered σ := { settings := o }

def isOpen (c : Buffered σ) : Bool := c.device.isSome

def isFailed (c : Buffered σ) : Bool := c.error.isSome

def bufferSize (c : Buffered σ) : Nat := c.buffer.length

def canRead (c : Buffered σ) : Bool := c.isOpen && c.mode.isReadable

def canWrite (c : Buffered σ) : Bool := c.isOpen && c.mode.isWritable

/-- The latched failure, which is cleared. -/
def takeError (c : Buffered σ) : Option IoError × Buffered σ := (c.error, { c with error := none })

/-- The first failure stays until it is taken. -/
def latch (c : Buffered σ) (error : Option IoError) : Buffered σ :=
  { c with error := c.error.or error }

def flushError (c : Buffered σ) : ChannelError × Buffered σ :=
  (.flushFailed ((c.error.map IoError.message).getD "short write"), { c with error := none })

def wholeBuffer (c : Buffered σ) : Region := .clamped 0 0 c.buffer.length

/-- No input, and room for output if the mode has it. -/
def reset (c : Buffered σ) : Buffered σ :=
  { c with
    filled := 0
    get := .empty
    onCell := false
    put := if c.mode.isWritable then c.wholeBuffer else .empty }

/-- Unread input, with what is parked behind the cell. -/
def unreadCount (c : Buffered σ) : Nat :=
  c.get.available + if c.onCell then c.filled else 0

def current (c : Buffered σ) : UInt8 :=
  if c.onCell then c.cell else c.buffer.getD c.get.next 0

def describe (c : Buffered σ) : String :=
  "BufferedChannel \x7b open: " ++ toString c.isOpen ++ ", mode: OpenMode(" ++
    toString c.mode.bits ++ "), text: " ++ toString c.text ++ ", buffer_size: " ++
    toString c.bufferSize ++ ", get: " ++ c.get.describe ++ ", put: " ++ c.put.describe ++ " \x7d"

variable [Device σ]

def receive (d : σ) (text : Bool) (n : Nat) : Intake × σ :=
  if text then Text.readCollapsed d n else readFully d n

/-- Sends bytes to the device, at its end if the mode appends. The expander is the one to go on
with. -/
def send (d : σ) (expander : Option Text.Expander) (append : Bool) (src : Bytes) :
    Transfer × Option Text.Expander × σ :=
  let moved := if append then Device.seek d (.finish 0) else (.ok 0, d)
  match moved.1 with
  | .error e => (⟨0, some e⟩, expander, moved.2)
  | .ok _ =>
    match expander with
    | some t =>
      let r := t.write moved.2 src
      (r.1, some r.2.1, r.2.2)
    | none =>
      let r := writeFully moved.2 src
      (r.1, none, r.2)

def refill (c : Buffered σ) : Buffered σ :=
  match c.device with
  | none => { c with filled := 0 }
  | some d =>
    let r := receive d c.text c.buffer.length
    { c with
      device := some r.2
      buffer := overwrite c.buffer 0 r.1.bytes
      filled := r.1.bytes.length }.latch r.1.error

def readDirect (c : Buffered σ) (n : Nat) : Bytes × Buffered σ :=
  match c.device with
  | none => ([], c)
  | some d =>
    let r := receive d c.text n
    (r.1.bytes, { c with device := some r.2 }.latch r.1.error)

def writeDirect (c : Buffered σ) (src : Bytes) : Nat × Buffered σ :=
  match c.device with
  | none => (0, c)
  | some d =>
    let r := send d c.expander c.mode.append src
    (r.1.done, { c with device := some r.2.2, expander := r.2.1 }.latch r.1.error)

def pending (c : Buffered σ) : Bytes := slice c.buffer c.put.base c.put.next

def writePending (c : Buffered σ) : Bool × Buffered σ :=
  if c.isOpen then
    let r := c.writeDirect c.pending
    (r.1 == c.put.consumed, r.2)
  else (false, c)

/-- How far the unread input reaches back in the device. In text every line feed counts as two
bytes, since it may have been two. -/
def unreadSpan (c : Buffered σ) : Nat :=
  if c.text then
    let ahead :=
      if c.get.available = 0 then 0
      else if c.onCell then if c.cell = Text.lf then 1 else 0
      else Text.countNewlines (slice c.buffer c.get.next c.get.limit)
    let parked := if c.onCell then Text.countNewlines (c.buffer.take c.filled) else 0
    c.unreadCount + ahead + parked
  else c.unreadCount

def discardInput (c : Buffered σ) : Buffered σ :=
  let c :=
    match c.device with
    | some d =>
      if 0 < c.unreadCount then
        let r := Device.seek d (.current (-c.unreadSpan))
        { c with device := some r.2 }.latch (failure? r.1)
      else c
    | none => c
  { c with filled := 0, get := .empty, onCell := false }

/-- Brings the device in line with the channel: writes what waits, or else gives up what was read
ahead. Tells whether all output was taken. -/
def sync (c : Buffered σ) : Bool × Buffered σ :=
  if 0 < c.put.consumed then
    let r := c.writePending
    (r.1, r.2.reset)
  else if c.mode.isReadable then (true, c.discardInput)
  else (true, c)

end Buffered

end ByteChannel
