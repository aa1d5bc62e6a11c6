import ByteChannel.Buffered.Session
import ByteChannel.Disk.File
import ByteChannel.Disk.WidePath

/-!
# Buffered channels over files

Opening a channel by path: the file is opened on the disk as the mode and the
disposition ask, and the channel is attached to it. An open channel touches no disk.
-/

namespace ByteChannel.Buffered

/-- Opens the channel on a file of a disk. A failure gives the disk back. -/
def openFile (c : Buffered FileDevice) (disk : Disk) (path : String) (mode : OpenMode)
    (disposition : Disposition) : Except (ChannelError × Disk) (Buffered FileDevice) :=
  if c.isOpen then .error (.alreadyOpen, disk)
  else
    let r := disk.openFile path (.ofMode mode disposition)
    match r.1 with
    | .error e => .error (.io e, r.2)
    | .ok file => (c.attach ⟨r.2, file⟩ mode).mapError fun e => (e.1, e.2.disk)

def openWide (c : Buffered FileDevice) (disk : Disk) (path : List UInt16) (mode : OpenMode)
    (disposition : Disposition) : Except (ChannelError × Disk) (Buffered FileDevice) :=
  if c.isOpen then .error (.alreadyOpen, disk)
  else
    match WidePath.toPath path with
    | .error e => .error (e, disk)
    | .ok path => c.openFile disk path mode disposition

end ByteChannel.Buffered
