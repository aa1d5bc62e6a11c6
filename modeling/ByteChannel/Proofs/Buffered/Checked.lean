import ByteChannel.Proofs.Buffered.Call
import ByteChannel.Proofs.Text.InBatch
import ByteChannel.Proofs.Text.InPlace

/-!
# A buffered channel with its ranges checked

Every operation is written here once more, with ranges that have to be there: a byte at an index, a
cut of the buffer, a place in it that bytes are laid over, a destination that a read fills, and the
ranges of the text that is collapsed or expanded on the way. Such an operation has no result as soon
as one range is outside.
-/

namespace ByteChannel.Buffered

variable {σ : Type}

/-! ## The operations on the buffer alone -/

def current? (c : Buffered σ) : Option UInt8 :=
  if c.onCell then some c.cell else c.buffer[c.get.next]?

def ahead? (c : Buffered σ) : Option Bytes :=
  if c.onCell then slice? [c.cell] c.get.next c.get.limit
  else slice? c.buffer c.get.next c.get.limit

def unreadSpan? (c : Buffered σ) : Option Nat :=
  if c.text then do
    let ahead ←
      if c.get.available = 0 then some 0
      else if c.onCell then some (if c.cell = Text.lf then 1 else 0)
      else (slice? c.buffer c.get.next c.get.limit).map Text.countNewlines
    let parked ← if c.onCell then (slice? c.buffer 0 c.filled).map Text.countNewlines else some 0
    some (c.unreadCount + ahead + parked)
  else some c.unreadCount

def place? (c : Buffered σ) (bs : Bytes) : Option (Buffered σ) := do
  let buffer ← overwrite? c.buffer c.put.next bs
  some { c with buffer := buffer, put := c.put.bump bs.length }

def takeAhead? (c : Buffered σ) (n : Nat) : Option (Bytes × Buffered σ) := do
  let k := min n c.get.available
  let bs ← slice? c.buffer c.get.next (c.get.next + k)
  some (bs, { c with get := c.get.bump k })

def unread? (c : Buffered σ) (b : UInt8) : Option (Bool × Buffered σ) :=
  if c.canRead = false ∨ c.pushedBack = true ∨ c.put.isCollapsed = false then some (false, c)
  else
    match c.get.stepBack? with
    | some get =>
      if c.onCell then some (true, { c with get := get, cell := b, pushedBack := true })
      else do
        let buffer ← overwrite? c.buffer get.next [b]
        some (true, { c with get := get, buffer := buffer, pushedBack := true })
    | none =>
      if c.onCell then some (false, c)
      else
        some (true,
          { c with get := .clamped 0 0 1, cell := b, onCell := true, pushedBack := true })

variable [Device σ]

/-! ## The operations that move bytes -/

/-- Fills a place, and gives what came into it. -/
def receive? (d : σ) (text : Bool) (place : Bytes) : Option (Intake × σ) := do
  let r ← if text then Text.Scan.fill? place d else readInto? place 0 d
  let bs ← slice? r.2.1 0 r.1.done
  some (⟨bs, r.1.error⟩, r.2.2)

def send? (d : σ) (expander : Option Text.Expander) (append : Bool) (src : Bytes) :
    Option (Transfer × Option Text.Expander × σ) :=
  let moved := if append then Device.seek d (.finish 0) else (.ok 0, d)
  match moved.1 with
  | .error e => some (⟨0, some e⟩, expander, moved.2)
  | .ok _ =>
    match expander with
    | some t => do
      let r ← t.write? moved.2 src
      some (r.1, some r.2.1, r.2.2)
    | none => do
      let r ← writeFrom? src 0 moved.2
      some (r.1, none, r.2)

def refill? (c : Buffered σ) : Option (Buffered σ) :=
  match c.device with
  | none => some { c with filled := 0 }
  | some d => do
    let r ← receive? d c.text c.buffer
    let buffer ← overwrite? c.buffer 0 r.1.bytes
    some ({ c with
      device := some r.2
      buffer := buffer
      filled := r.1.bytes.length }.latch r.1.error)

def readDirect? (c : Buffered σ) (n : Nat) : Option (Bytes × Buffered σ) :=
  match c.device with
  | none => some ([], c)
  | some d => do
    let r ← receive? d c.text (List.replicate n 0)
    some (r.1.bytes, { c with device := some r.2 }.latch r.1.error)

def writeDirect? (c : Buffered σ) (src : Bytes) : Option (Nat × Buffered σ) :=
  match c.device with
  | none => some (0, c)
  | some d => do
    let r ← send? d c.expander c.mode.append src
    some (r.1.done, { c with device := some r.2.2, expander := r.2.1 }.latch r.1.error)

def writePending? (c : Buffered σ) : Option (Bool × Buffered σ) :=
  if c.isOpen then do
    let bs ← slice? c.buffer c.put.base c.put.next
    let r ← c.writeDirect? bs
    some (r.1 == c.put.consumed, r.2)
  else some (false, c)

def discardInput? (c : Buffered σ) : Option (Buffered σ) := do
  let c ←
    if 0 < c.unreadCount then do
      let span ← c.unreadSpan?
      match c.device with
      | some d =>
        let r := Device.seek d (.current (-span))
        some ({ c with device := some r.2 }.latch (failure? r.1))
      | none => some c
    else some c
  some { c with filled := 0, get := .empty, onCell := false }

def yieldInput? (c : Buffered σ) : Option (Buffered σ) :=
  if c.mode.isReadable then c.discardInput? else some c

def sync? (c : Buffered σ) : Option (Bool × Buffered σ) :=
  if 0 < c.put.consumed then do
    let r ← c.writePending?
    some (r.1, r.2.reset)
  else do
    let c ← c.yieldInput?
    some (true, c)

def turnToInput? (c : Buffered σ) : Option (Buffered σ) := do
  let c ←
    if 0 < c.put.consumed then do
      let r ← c.writePending?
      some r.2
    else some c
  some { c with put := .empty }

def takeFresh? (c : Buffered σ) (n : Nat) : Option (Bytes × Buffered σ) :=
  if n = 0 then some ([], c)
  else if n < c.buffer.length then do
    let c ← c.refill?
    let k := min n c.filled
    let bs ← slice? c.buffer 0 k
    some (bs, { c with get := .clamped 0 k c.filled })
  else do
    let r ← c.readDirect? n
    some (r.1, { r.2 with get := .empty, filled := 0 })

def read? (c : Buffered σ) (n : Nat) : Option (Bytes × Buffered σ) :=
  if n = 0 ∨ c.canRead = false then some ([], c)
  else do
    let c ← { c with pushedBack := false }.turnToInput?
    let held := c.takeCell
    let ahead ← held.2.takeAhead? (n - held.1.length)
    let fresh ← ahead.2.takeFresh? (n - held.1.length - ahead.1.length)
    let bs ← fitting? n (held.1 ++ ahead.1 ++ fresh.1)
    some (bs, fresh.2)

def peek? (c : Buffered σ) : Option (Option UInt8 × Buffered σ) :=
  if c.canRead = false then some (none, c)
  else if 0 < c.get.available then do
    let b ← c.current?
    some (some b, c)
  else if c.onCell = true ∧ 0 < c.filled then do
    let b ← c.buffer[0]?
    some (some b, { c with onCell := false, get := .clamped 0 0 c.filled })
  else if c.buffer = [] then do
    let r ← { c with filled := 0 }.readDirect? 1
    some (r.1.head?,
      { r.2 with cell := r.1.headD 0, onCell := true, get := .clamped 0 0 r.1.length })
  else do
    let c ← c.turnToInput?
    let c ← { c with onCell := false }.refill?
    let c := { c with get := .clamped 0 0 c.filled }
    if 0 < c.filled then do
      let b ← c.buffer[0]?
      some (some b, c)
    else some (none, c)

def readByte? (c : Buffered σ) : Option (Option UInt8 × Buffered σ) := do
  let r ← c.peek?
  match r.1 with
  | some b => some (some b, r.2.advance 1)
  | none => some (none, r.2)

def peekChunk? (c : Buffered σ) : Option (Except IoError Bytes × Buffered σ) :=
  if c.get.available = 0 then do
    let r ← c.peek?
    match r.1 with
    | some _ => do
      let bs ← r.2.ahead?
      some (.ok bs, r.2)
    | none =>
      match r.2.error with
      | some e => some (.error e, { r.2 with error := none })
      | none => some (.ok [], r.2)
  else do
    let bs ← c.ahead?
    some (.ok bs, c)

def fill? (c : Buffered σ) (n : Nat) : Option (Except IoError Bytes × Buffered σ) := do
  let r ← c.peekChunk?
  match r.1 with
  | .ok bs => some (.ok bs, r.2.advance (min n bs.length))
  | .error e => some (.error e, r.2)

def overflow? (c : Buffered σ) (b : UInt8) : Option (Bool × Buffered σ) :=
  if c.canWrite = false then some (false, c)
  else if c.buffer = [] then do
    let c ← c.yieldInput?
    let r ← c.writeDirect? [b]
    some (r.1 == 1, r.2)
  else do
    let r ← c.openPut.sync?
    if r.1 then do
      let c ← r.2.place? [b]
      some (true, c)
    else some (false, r.2)

def writeByte? (c : Buffered σ) (b : UInt8) : Option (Bool × Buffered σ) :=
  if 0 < c.put.available ∧ c.canWrite = true then do
    let c ← c.place? [b]
    some (true, { c with pushedBack := false })
  else c.overflow? b

def store? (c : Buffered σ) (src : Bytes) : Option (Nat × Buffered σ) :=
  match src with
  | [] => some (0, c)
  | b :: bs =>
    if 0 < c.put.available then do
      let k := min c.put.available (bs.length + 1)
      let front ← slice? (b :: bs) 0 k
      let c ← c.place? front
      let more ← store? c ((b :: bs).drop k)
      some (k + more.1, more.2)
    else do
      let r ← c.overflow? b
      if r.1 then do
        let more ← store? r.2 bs
        some (more.1 + 1, more.2)
      else some (0, r.2)
termination_by src.length
decreasing_by
  all_goals
    simp only [List.length_drop, List.length_cons]
    omega

def write? (c : Buffered σ) (src : Bytes) : Option (Nat × Buffered σ) :=
  if c.canWrite = false then some (0, c)
  else
    let c := { c with pushedBack := false }
    if c.buffer.length < src.length then do
      let r ← c.sync?
      if r.1 then r.2.writeDirect? src else some (0, r.2)
    else do
      let c ← c.yieldInput?
      let c := if c.buffer = [] then c else c.openPut
      c.store? src

def flush? (c : Buffered σ) : Option (Except ChannelError Unit × Buffered σ) :=
  if c.isOpen = false then some (.error .notOpen, c)
  else do
    let r ← c.sync?
    if r.1 then some (.ok (), r.2)
    else
      let failed := r.2.flushError
      some (.error failed.1, failed.2)

def seek? (c : Buffered σ) (o : Origin) : Option (Except ChannelError Nat × Buffered σ) :=
  if c.isOpen = false then some (.error .notOpen, c)
  else do
    let r ← { c with pushedBack := false }.sync?
    if r.1 then
      match r.2.device with
      | none => some (.error .notOpen, r.2)
      | some d =>
        let moved := Device.seek d o
        some (moved.1.mapError .io, { r.2 with device := some moved.2 })
    else
      let failed := r.2.flushError
      some (.error failed.1, failed.2)

def installBuffer? (c : Buffered σ) (buffer : Bytes) :
    Option (Except ChannelError Unit × Buffered σ) :=
  if c.unreadCount ≠ 0 then some (.error .bufferHoldsInput, c)
  else do
    let r ← if c.isOpen then c.sync? else some (true, c)
    if r.1 then some (.ok (), { r.2 with buffer := buffer, adopted := true }.reset)
    else
      let failed := r.2.flushError
      some (.error failed.1, failed.2)

def close? (c : Buffered σ) : Option (Except ChannelError Unit × Buffered σ × Option σ) :=
  if c.isOpen = false then some (.error .notOpen, c, none)
  else do
    let r ← c.flush?
    let shut := { r.2 with
      device := none
      mode := .noAccess
      expander := none
      pushedBack := false }.reset
    match r.2.device with
    | none => some (r.1, shut, none)
    | some d =>
      let closed := Device.close d
      some (match r.1 with
        | .error e => .error e
        | .ok () => closed.1.mapError .io,
        shut, some closed.2)

def perform? (c : Buffered σ) : Call → Option (Answer × Buffered σ)
  | .read n => (c.read? n).map (Prod.map .bytes id)
  | .readByte => c.readByte?.map (Prod.map .byte id)
  | .peek => c.peek?.map (Prod.map .byte id)
  | .fill n => (c.fill? n).map (Prod.map .shown id)
  | .unread b => (c.unread? b).map (Prod.map .flag id)
  | .write src => (c.write? src).map (Prod.map .count id)
  | .writeByte b => (c.writeByte? b).map (Prod.map .flag id)
  | .overflow b => (c.overflow? b).map (Prod.map .flag id)
  | .flush => c.flush?.map (Prod.map .outcome id)
  | .seek o => (c.seek? o).map (Prod.map .position id)
  | .tell => (c.seek? (.current 0)).map (Prod.map .position id)
  | .install buffer => (c.installBuffer? buffer).map (Prod.map .outcome id)
  | .resize n => (c.installBuffer? (List.replicate n 0)).map (Prod.map .outcome id)

end ByteChannel.Buffered
