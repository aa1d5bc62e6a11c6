import ByteChannel.Buffered.Basic

/-!
# Writing through the buffer

Output goes into the put region. A byte that finds it full sends it to the device first;
a piece longer than the buffer goes past it. Writing gives up what was read ahead.
-/

namespace ByteChannel.Buffered

variable {σ : Type} [Device σ]

def openPut (c : Buffered σ) : Buffered σ :=
  if c.put.isCollapsed then { c with put := c.wholeBuffer } else c

def place (c : Buffered σ) (bs : Bytes) : Buffered σ :=
  { c with buffer := overwrite c.buffer c.put.next bs, put := c.put.bump bs.length }

/-- Sends what waits, and puts the byte after it. Without a buffer the byte itself is sent. -/
def overflow (c : Buffered σ) (b : UInt8) : Bool × Buffered σ :=
  if c.canWrite = false then (false, c)
  else if c.buffer = [] then
    let c := if c.mode.isReadable then c.discardInput else c
    let r := c.writeDirect [b]
    (r.1 == 1, r.2)
  else
    let r := c.openPut.sync
    if r.1 then (true, r.2.place [b]) else (false, r.2)

def writeByte (c : Buffered σ) (b : UInt8) : Bool × Buffered σ :=
  if 0 < c.put.available ∧ c.canWrite = true then
    (true, { c.place [b] with pushedBack := false })
  else c.overflow b

/-- Puts bytes until one is refused, and answers how many went in. As many as there is room for go
in at once. -/
def store (c : Buffered σ) (src : Bytes) : Nat × Buffered σ :=
  match src with
  | [] => (0, c)
  | b :: bs =>
    if 0 < c.put.available then
      let k := min c.put.available (bs.length + 1)
      let more := store (c.place ((b :: bs).take k)) ((b :: bs).drop k)
      (k + more.1, more.2)
    else
      let r := c.overflow b
      if r.1 then
        let more := store r.2 bs
        (more.1 + 1, more.2)
      else (0, r.2)
termination_by src.length
decreasing_by
  all_goals
    simp only [List.length_drop, List.length_cons]
    omega

def write (c : Buffered σ) (src : Bytes) : Nat × Buffered σ :=
  if c.canWrite = false then (0, c)
  else
    let c := { c with pushedBack := false }
    if c.buffer.length < src.length then
      let r := c.sync
      if r.1 then r.2.writeDirect src else (0, r.2)
    else
      let c := if c.mode.isReadable then c.discardInput else c
      let c := if c.buffer = [] then c else c.openPut
      c.store src

end ByteChannel.Buffered
