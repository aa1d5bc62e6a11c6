import ByteChannel.Buffered.File
import ByteChannel.Buffered.Stream
import ByteChannel.Device.Faulty
import ByteChannel.InMemory
import ByteChannel.Mapped.Device
import ByteChannel.Workspace
import ByteChannel.Store
import ByteChannel.Proofs.Device.Reliable
import ByteChannel.Proofs.Device.Received
import ByteChannel.Proofs.Text.Settled
import ByteChannel.Proofs.Buffered.Call
import ByteChannel.Proofs.Buffered.Coherent
import ByteChannel.Proofs.Text.Expanded
import ByteChannel.Proofs.Text.Paired
import ByteChannel.Proofs.Buffered.CoherentCalls
import ByteChannel.Proofs.Buffered.Coding
import ByteChannel.Proofs.Buffered.Held
import ByteChannel.Proofs.Buffered.Input
import ByteChannel.Proofs.Buffered.Output
import ByteChannel.Proofs.Buffered.Session
import ByteChannel.Proofs.Buffered.Reference
import ByteChannel.Proofs.Buffered.Binary
import ByteChannel.Proofs.Buffered.Streams
import ByteChannel.Proofs.Buffered.RoundTrip
import ByteChannel.Proofs.Buffered.Outward
import ByteChannel.Proofs.Buffered.Delivery
import ByteChannel.Proofs.Buffered.Position
import ByteChannel.Proofs.Mapping
import ByteChannel.Proofs.Mapping.Copies
import ByteChannel.Proofs.Mapped.Framed
import ByteChannel.Proofs.Mapped.Transfer
import ByteChannel.Proofs.Device.Call
import ByteChannel.Proofs.Mapped.Entry
import ByteChannel.Proofs.Mapped.FixedLength
import ByteChannel.Proofs.Mapped.Private
import ByteChannel.Proofs.Ranges
import ByteChannel.Proofs.Buffered.History
import ByteChannel.Proofs.Buffered.Checked
import ByteChannel.Proofs.Buffered.InRange
import ByteChannel.Proofs.Device.Appendable
import ByteChannel.Proofs.Buffered.Appending
import ByteChannel.Proofs.Buffered.AppendOnly
import ByteChannel.Proofs.Mapped.Call
import ByteChannel.Proofs.Mapped.Bytewise
import ByteChannel.Proofs.Mapped.History
import ByteChannel.Proofs.Mapped.InRange
import ByteChannel.Proofs.Mapped.Positions
import ByteChannel.Proofs.Device.Along
import ByteChannel.Proofs.Device.Used
import ByteChannel.Proofs.Buffered.Onward
import ByteChannel.Proofs.Buffered.Alike
import ByteChannel.Proofs.Buffered.AlikeCalls
import ByteChannel.Proofs.Buffered.Use
import ByteChannel.Proofs.Buffered.Reopened
import ByteChannel.Proofs.Buffered.ShortReads
import ByteChannel.Proofs.Mapping.Holders
import ByteChannel.Proofs.Mapping.Deposits
import ByteChannel.Proofs.Mapping.Seats
import ByteChannel.Proofs.Mapped.Perform
import ByteChannel.Proofs.Mapped.Holding
import ByteChannel.Proofs.Mapped.Traffic
import ByteChannel.Proofs.Workspace.Call
import ByteChannel.Proofs.Workspace.Ledger
import ByteChannel.Proofs.Workspace.OneFile
import ByteChannel.Proofs.Text.InPlace
import ByteChannel.Proofs.Text.InBatch
import ByteChannel.Proofs.Text.Accounted
import ByteChannel.Proofs.Buffered.Drawn
import ByteChannel.Proofs.Buffered.Failing
import ByteChannel.Proofs.Buffered.Pushback
import ByteChannel.Proofs.Device.Faltering
import ByteChannel.Proofs.Text.Parted
import ByteChannel.Proofs.Buffered.ReadErrors
import ByteChannel.Proofs.Mapped.Shown
import ByteChannel.Proofs.Mapped.Reserved
import ByteChannel.Proofs.Mapped.Seeking
import ByteChannel.Proofs.Buffered.PushbackOnce
import ByteChannel.Proofs.Buffered.Settling
import ByteChannel.Proofs.Buffered.Spot
import ByteChannel.Proofs.Disk.WidePath
import ByteChannel.Proofs.Mapped.Refused
import ByteChannel.Proofs.Workspace.Outage
import ByteChannel.Proofs.Workspace.Promised
import ByteChannel.Proofs.InMemory
import ByteChannel.Proofs.Region
import ByteChannel.Proofs.Mapping.Sized
import ByteChannel.Proofs.Device.Whole
