import ByteChannel.Buffered.Basic

/-!
# Reading through the buffer

Reads take the pushed-back byte first, then what was read ahead, then the device: a short
rest by way of the buffer, a long one past it. One byte can be pushed back between
reads, into the buffer where it came from or else into the cell.
-/

namespace ByteChannel.Buffered

variable {σ : Type} [Device σ]

/-- The byte in the cell, if it is unread; the region then goes back to the parked bytes. -/
def takeCell (c : Buffered σ) : Bytes × Buffered σ :=
  if c.onCell then
    (if 0 < c.get.available then [c.cell] else [],
      { c with get := .clamped 0 0 c.filled, onCell := false })
  else ([], c)

def takeAhead (c : Buffered σ) (n : Nat) : Bytes × Buffered σ :=
  let k := min n c.get.available
  (slice c.buffer c.get.next (c.get.next + k), { c with get := c.get.bump k })

def turnToInput (c : Buffered σ) : Buffered σ :=
  let c := if 0 < c.put.consumed then c.writePending.2 else c
  { c with put := .empty }

def takeFresh (c : Buffered σ) (n : Nat) : Bytes × Buffered σ :=
  if n = 0 then ([], c)
  else if n < c.buffer.length then
    let c := c.refill
    let k := min n c.filled
    (c.buffer.take k, { c with get := .clamped 0 k c.filled })
  else
    let r := c.readDirect n
    (r.1, { r.2 with get := .empty, filled := 0 })

def read (c : Buffered σ) (n : Nat) : Bytes × Buffered σ :=
  if n = 0 ∨ c.canRead = false then ([], c)
  else
    let c := { c with pushedBack := false }.turnToInput
    let held := c.takeCell
    let ahead := held.2.takeAhead (n - held.1.length)
    let fresh := ahead.2.takeFresh (n - held.1.length - ahead.1.length)
    (held.1 ++ ahead.1 ++ fresh.1, fresh.2)

/-- The next byte, which stays. Without a buffer it waits in the cell. -/
def peek (c : Buffered σ) : Option UInt8 × Buffered σ :=
  if c.canRead = false then (none, c)
  else if 0 < c.get.available then (some c.current, c)
  else if c.onCell = true ∧ 0 < c.filled then
    let c := { c with onCell := false, get := .clamped 0 0 c.filled }
    (some (c.buffer.getD 0 0), c)
  else if c.buffer = [] then
    let r := { c with filled := 0 }.readDirect 1
    (r.1.head?,
      { r.2 with cell := r.1.headD 0, onCell := true, get := .clamped 0 0 r.1.length })
  else
    let c := { c.turnToInput with onCell := false }.refill
    let c := { c with get := .clamped 0 0 c.filled }
    (if 0 < c.filled then some (c.buffer.getD 0 0) else none, c)

def advance (c : Buffered σ) (n : Nat) : Buffered σ :=
  { c with get := c.get.bump n, pushedBack := false }

def readByte (c : Buffered σ) : Option UInt8 × Buffered σ :=
  let r := c.peek
  match r.1 with
  | some b => (some b, r.2.advance 1)
  | none => (none, r.2)

/-- Pushes back a byte, right after input and once between reads. -/
def unread (c : Buffered σ) (b : UInt8) : Bool × Buffered σ :=
  if c.canRead = false ∨ c.pushedBack = true ∨ c.put.isCollapsed = false then (false, c)
  else
    match c.get.stepBack? with
    | some get =>
      if c.onCell then (true, { c with get := get, cell := b, pushedBack := true })
      else
        (true, { c with
          get := get
          buffer := overwrite c.buffer get.next [b]
          pushedBack := true })
    | none =>
      if c.onCell then (false, c)
      else (true, { c with get := .clamped 0 0 1, cell := b, onCell := true, pushedBack := true })

end ByteChannel.Buffered
