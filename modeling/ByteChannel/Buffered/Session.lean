import ByteChannel.Buffered.Basic

/-!
# Opening, positioning and closing

A closed channel takes a device and gives it back when it is closed. A seek, a flush and
a change of buffer bring the device in line first, and fail where output was lost.
-/

namespace ByteChannel.Buffered

variable {σ : Type} [Device σ]

/-- Opens the channel over a device. A failure gives the device back. -/
def attach (c : Buffered σ) (d : σ) (mode : OpenMode) : Except (ChannelError × σ) (Buffered σ) :=
  if c.isOpen then .error (.alreadyOpen, d)
  else
    let moved := if mode.startsAtEnd then Device.seek d (.finish 0) else (.ok 0, d)
    match moved.1 with
    | .error e => .error (.io e, moved.2)
    | .ok _ =>
      let text := !mode.binary && c.settings.textPolicy.translates
      .ok { c with
        device := some moved.2
        buffer := if c.adopted then c.buffer else List.replicate c.settings.bufferSize 0
        text := text
        expander := if text && mode.isWritable then some .standard else none
        mode := mode
        error := none
        pushedBack := false }.reset

/-- Puts in a buffer, unless input waits in the old one. -/
def installBuffer (c : Buffered σ) (buffer : Bytes) : Except ChannelError Unit × Buffered σ :=
  if c.unreadCount ≠ 0 then (.error .bufferHoldsInput, c)
  else
    let r := if c.isOpen then c.sync else (true, c)
    if r.1 then (.ok (), { r.2 with buffer := buffer, adopted := true }.reset)
    else
      let failed := r.2.flushError
      (.error failed.1, failed.2)

def resizeBuffer (c : Buffered σ) (n : Nat) : Except ChannelError Unit × Buffered σ :=
  c.installBuffer (List.replicate n 0)

def flush (c : Buffered σ) : Except ChannelError Unit × Buffered σ :=
  if c.isOpen = false then (.error .notOpen, c)
  else
    let r := c.sync
    if r.1 then (.ok (), r.2)
    else
      let failed := r.2.flushError
      (.error failed.1, failed.2)

def seek (c : Buffered σ) (o : Origin) : Except ChannelError Nat × Buffered σ :=
  if c.isOpen = false then (.error .notOpen, c)
  else
    let r := { c with pushedBack := false }.sync
    if r.1 then
      match r.2.device with
      | none => (.error .notOpen, r.2)
      | some d =>
        let moved := Device.seek d o
        (moved.1.mapError .io, { r.2 with device := some moved.2 })
    else
      let failed := r.2.flushError
      (.error failed.1, failed.2)

def tell (c : Buffered σ) : Except ChannelError Nat × Buffered σ := c.seek (.current 0)

/-- Closes the channel, whatever fails, and gives the device back. Lost output counts before a
failure of the device to close. -/
def close (c : Buffered σ) : Except ChannelError Unit × Buffered σ × Option σ :=
  if c.isOpen = false then (.error .notOpen, c, none)
  else
    let r := c.flush
    let shut := { r.2 with
      device := none
      mode := .noAccess
      expander := none
      pushedBack := false }.reset
    match r.2.device with
    | none => (r.1, shut, none)
    | some d =>
      let closed := Device.close d
      (match r.1 with
        | .error e => .error e
        | .ok () => closed.1.mapError .io,
        shut, some closed.2)

end ByteChannel.Buffered
