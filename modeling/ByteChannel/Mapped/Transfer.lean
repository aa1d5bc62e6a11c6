import ByteChannel.Mapped.Basic

/-!
# Moving bytes through a window

A transfer that finds its region used up moves the offset to its own position, makes a
window there and goes on. Bulk transfers bring the other position along, single bytes
do not. Nothing is written past the end of the mapping.
-/

namespace ByteChannel.Mapped

variable [Paging]

/-- Makes `n` unread bytes contiguous, as far as the mapping goes, and answers how many there
are. -/
def reserveGet (c : Mapped) (n : Nat) : Except ChannelError Nat × Mapped :=
  if c.isOpen = false then (.error .notOpen, c)
  else if c.get.available < n then
    let r := { c with offset := c.offset + c.get.consumed }.slide n
    (r.1.map fun _ => r.2.get.available, r.2)
  else (.ok c.get.available, c)

def reservePut (c : Mapped) (n : Nat) : Except ChannelError Nat × Mapped :=
  if c.isOpen = false then (.error .notOpen, c)
  else if c.mode.isWritable = false then (.error .notOpenForOutput, c)
  else if c.put.available < n then
    let r := { c with offset := c.offset + c.put.consumed }.slide n
    (r.1.map fun _ => r.2.put.available, r.2)
  else (.ok c.put.available, c)

def takeWindow (c : Mapped) (n : Nat) : Bytes × Mapped :=
  let k := min n c.get.available
  (c.view.range c.table c.get.next (c.get.next + k), { c with get := c.get.bump k })

/-- Reads up to `n` bytes, and leaves the put cursor behind them. -/
def read (c : Mapped) (n : Nat) : Bytes × Mapped :=
  if c.canRead = false then ([], c)
  else
    let first := c.takeWindow n
    let rest := n - min n c.get.available
    if rest = 0 then (first.1, first.2.setPut first.2.get.next)
    else
      let r := first.2.reserveGet rest
      match r.1 with
      | .error e =>
        let c := r.2.latch (some e)
        (first.1, c.setPut c.get.next)
      | .ok _ =>
        let more := r.2.takeWindow rest
        (first.1 ++ more.1, more.2.setPut more.2.get.next)

def peek (c : Mapped) : Option UInt8 × Mapped :=
  if c.canRead = false then (none, c)
  else if 0 < c.get.available then (some (c.view.byteAt c.table c.get.next), c)
  else if c.offset + c.get.limit < c.size then
    let r := { c with offset := c.offset + c.get.limit }.slide 0
    match r.1 with
    | .error e => (none, r.2.latch (some e))
    | .ok () =>
      (if 0 < r.2.get.available then some (r.2.view.byteAt r.2.table r.2.get.next) else none, r.2)
  else (none, c)

def readByte (c : Mapped) : Option UInt8 × Mapped :=
  let r := c.peek
  match r.1 with
  | some b => (some b, { r.2 with get := r.2.get.bump 1 })
  | none => (none, r.2)

def store (c : Mapped) (bs : Bytes) : Mapped :=
  if bs = [] then c
  else
    match c.view.store? c.table c.put.next bs with
    | some r => { c with view := r.1, table := r.2, put := c.put.bump bs.length }
    | none => c.latch (some .windowIsReadOnly)

/-- Writes one byte, and leaves the get cursor where it is. -/
def writeByte (c : Mapped) (b : UInt8) : Bool × Mapped :=
  if c.canWrite = false then (false, c.latch (some .notOpenForOutput))
  else if 0 < c.put.available then (true, c.store [b])
  else
    let c := { c with offset := c.offset + c.put.limit }
    if c.size ≤ c.offset then (false, { c with offset := min c.offset c.size }.dropWindow)
    else
      let r := c.slide 0
      match r.1 with
      | .error e => (false, r.2.latch (some e))
      | .ok () => if r.2.put.available = 0 then (false, r.2) else (true, r.2.store [b])

def write (c : Mapped) (src : Bytes) : Nat × Mapped :=
  if c.canWrite = false then (0, c.latch (some .notOpenForOutput))
  else if src.length ≤ c.put.available then
    let c := c.store src
    (src.length, c.setGet c.put.next)
  else if c.size ≤ c.offset + c.put.consumed then
    (0, { c with offset := c.size }.dropWindow)
  else
    let r := c.reservePut src.length
    match r.1 with
    | .error e => (0, r.2.latch (some e))
    | .ok room =>
      let k := min src.length room
      let c := r.2.store (src.take k)
      (k, c.setGet c.put.next)

def readToEnd (c : Mapped) (limit : Nat) : Bytes × Mapped :=
  match limit with
  | 0 => ([], c)
  | limit + 1 =>
    let r := c.readByte
    match r.1 with
    | none => ([], r.2)
    | some b =>
      -- the rest of the window goes along with its first byte
      let along := r.2.takeWindow limit
      let more := readToEnd along.2 (limit - along.1.length)
      (b :: along.1 ++ more.1, more.2)
termination_by limit

def writeEach (c : Mapped) (src : Bytes) : Nat × Mapped :=
  match src with
  | [] => (0, c)
  | b :: bs =>
    if c.canWrite = true ∧ 0 < c.put.available then
      -- as many at once as the window has room for
      let k := min c.put.available (bs.length + 1)
      let more := writeEach (c.store ((b :: bs).take k)) ((b :: bs).drop k)
      (k + more.1, more.2)
    else
      let r := c.writeByte b
      if r.1 then
        let more := writeEach r.2 bs
        (more.1 + 1, more.2)
      else (0, r.2)
termination_by src.length
decreasing_by
  all_goals
    simp only [List.length_drop, List.length_cons]
    omega

/-- Brings the two cursors together where they are apart. The side that is sought leads. -/
def reconcile (c : Mapped) (side : Side) : Mapped :=
  if c.put.next = c.get.next then c
  else if side.includesGet then c.setPut c.get.next
  else c.setGet c.put.next

def seek (c : Mapped) (o : Origin) (side : Side) : Except ChannelError Nat × Mapped :=
  if c.isOpen = false then (.error .notOpen, c)
  else
    let c := c.reconcile side
    if o = .current 0 then (.ok c.getPos, c)
    else
      let target := o.clampedTarget c.getPos c.size
      if c.offset ≤ target ∧ c.view.isBound = true ∧ target - c.offset ≤ c.view.length then
        (.ok target, (c.setGet (target - c.offset)).setPut (target - c.offset))
      else (.ok target, { c with offset := target }.dropWindow)

/-- Writes the window back. A failure to write back a window left behind is reported here too. -/
def flush (c : Mapped) : Except ChannelError Unit × Mapped :=
  let r := c.view.sync c.table
  let c := { c with table := r.2 }
  match r.1, c.error with
  | .error e, _ => (.error e, c)
  | .ok (), some (.flushFailed reason) => (.error (.flushFailed reason), { c with error := none })
  | .ok (), _ => (.ok (), c)

end ByteChannel.Mapped
