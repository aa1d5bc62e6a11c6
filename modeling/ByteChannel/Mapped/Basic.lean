import ByteChannel.Mapping.View
import ByteChannel.Origin
import ByteChannel.Region

/-!
# Channels over mappings

A mapped channel reads and writes one window of a mapping, which slides along on demand.
The get and the put region lie over the same window, so output is input at once. The
window starts at the channel's offset. When it is dropped both regions are empty and the
offset says where the next one starts.
-/

namespace ByteChannel

structure Mapped where
  table : MapTable
  mapping : Mapping := {}
  view : View := {}
  mode : OpenMode := .noAccess
  offset : Nat := 0
  get : Region := .empty
  put : Region := .empty
  error : Option ChannelError := none

namespace Mapped

def isOpen (c : Mapped) : Bool := c.mapping.isOpen

def isFailed (c : Mapped) : Bool := c.error.isSome

def size (c : Mapped) : Nat := c.mapping.size c.table

def getPos (c : Mapped) : Nat := c.offset + c.get.next

def putPos (c : Mapped) : Nat := c.offset + c.put.next

def getSize (c : Mapped) : Nat := c.get.available

def putSize (c : Mapped) : Nat := c.put.consumed

/-- The unread bytes of the window. -/
def getData [Paging] (c : Mapped) : Bytes := c.view.range c.table c.get.next c.get.limit

/-- The bytes of the window before the put cursor. -/
def putData [Paging] (c : Mapped) : Bytes := c.view.range c.table c.put.base c.put.next

def takeError (c : Mapped) : Option ChannelError × Mapped := (c.error, { c with error := none })

/-- The first failure stays until it is taken. -/
def latch (c : Mapped) (error : Option ChannelError) : Mapped :=
  { c with error := c.error.or error }

def canRead (c : Mapped) : Bool := c.isOpen && c.mode.isReadable

def canWrite (c : Mapped) : Bool := c.isOpen && c.mode.isWritable

def setGet (c : Mapped) (pos : Nat) : Mapped := { c with get := .clamped 0 pos c.view.length }

def setPut (c : Mapped) (pos : Nat) : Mapped := { c with put := .clamped 0 pos c.view.length }

/-- Writes the window back and drops it. -/
def dropWindow (c : Mapped) : Mapped :=
  let r := c.view.sync c.table
  { c with
    table := r.2
    view := c.view.unmap
    get := .empty
    put := .empty }.latch (failure? r.1)

/-- Makes a window at the offset, of a page or more. There is none at the end of the mapping. -/
def slide [Paging] (c : Mapped) (n : Nat) : Except ChannelError Unit × Mapped :=
  let c := c.dropWindow
  if c.size ≤ c.offset then (.ok (), c)
  else
    let r := c.view.remap c.table c.mapping c.offset (max n pageSize)
    let c := { c with view := r.2.1, table := r.2.2 }
    match r.1 with
    | .error e => (.error e, c)
    | .ok () => (.ok (), (c.setGet 0).setPut 0)

/-! ## Opening and closing -/

def refusal? (c : Mapped) (mode : OpenMode) : Option ChannelError :=
  if c.isOpen then some .alreadyOpen
  else if !mode.isReadable && !mode.isWritable then some .noDirectionRequested
  else none

def start (c : Mapped) (m : Mapping) (mode : OpenMode) : Mapped :=
  { c with mapping := m, mode := mode, offset := 0, error := none }.dropWindow

def openPath (c : Mapped) (path : String) (mode : OpenMode) (keepPrivate : Bool) :
    Except ChannelError Unit × Mapped :=
  match c.refusal? mode with
  | some e => (.error e, c)
  | none =>
    let r := Mapping.openPath c.table path (.forChannel mode keepPrivate)
    match r.1 with
    | .error e => (.error e, { c with table := r.2 })
    | .ok m => (.ok (), { c with table := r.2 }.start m mode)

def openWide (c : Mapped) (path : Except ChannelError String) (mode : OpenMode)
    (keepPrivate : Bool) : Except ChannelError Unit × Mapped :=
  match c.refusal? mode with
  | some e => (.error e, c)
  | none =>
    match path with
    | .error e => (.error e, c)
    | .ok path => c.openPath path mode keepPrivate

/-- Opens the channel over a mapping that others hold too. -/
def attach (c : Mapped) (m : Mapping) (mode : OpenMode) : Except ChannelError Unit × Mapped :=
  match c.refusal? mode with
  | some e => (.error e, c)
  | none =>
    if m.isOpen = false then (.error .unmapped, c)
    else if mode.isWritable && !m.isWritable c.table then (.error .mappingIsReadOnly, c)
    else
      let r := m.clone c.table
      (.ok (), { c with table := r.2 }.start r.1 mode)

/-- Gives up the window and the mapping; false on a closed channel. -/
def close (c : Mapped) : Bool × Mapped :=
  if c.isOpen = false then (false, c)
  else
    let v := c.view.release c.table
    let m := c.mapping.close v.2
    (true, { c with
      table := m.2
      mapping := m.1
      view := v.1
      mode := .noAccess
      offset := 0
      get := .empty
      put := .empty })

/-- What happens to a channel that is no longer used. -/
def discard (c : Mapped) : Mapped :=
  if c.isOpen then { c with table := (c.view.sync c.table).2 }.close.2 else c

end Mapped

end ByteChannel
