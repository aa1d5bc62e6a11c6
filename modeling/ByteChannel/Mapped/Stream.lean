import ByteChannel.Device
import ByteChannel.Mapped.Transfer

/-!
# Mapped channels as devices

The face of a mapped channel that reports failures: a transfer that moved nothing takes
the latched failure and fails with it, and a write at the end of the mapping fails. With
it the channel is a device of fixed length that a buffered channel can stand on.
-/

namespace ByteChannel.Mapped

def tryRead [Paging] (c : Mapped) (n : Nat) : Except IoError Bytes × Mapped :=
  if c.isOpen = false then (.error ChannelError.notOpen.toIoError, c)
  else
    let r := c.read n
    if r.1 = [] ∧ n ≠ 0 then
      match r.2.error with
      | some e => (.error e.toIoError, { r.2 with error := none })
      | none => (.ok [], r.2)
    else (.ok r.1, r.2)

def tryWrite [Paging] (c : Mapped) (src : Bytes) : Except IoError Nat × Mapped :=
  let r := c.write src
  if r.1 = 0 ∧ src ≠ [] then
    (.error ((r.2.error.map ChannelError.toIoError).getD .endOfMapping), { r.2 with error := none })
  else (.ok r.1, r.2)

def tryFlush (c : Mapped) : Except IoError Unit × Mapped :=
  let r := c.flush
  (r.1.mapError ChannelError.toIoError, r.2)

def trySeek (c : Mapped) (o : Origin) : Except IoError Nat × Mapped :=
  let r := c.seek o .both
  (r.1.mapError ChannelError.toIoError, r.2)

def shut (c : Mapped) : Except IoError Unit × Mapped :=
  let r := c.tryFlush
  (r.1, r.2.close.2)

end ByteChannel.Mapped
