import ByteChannel.Mapped.Stream
import ByteChannel.Proofs.Mapped.History

/-!
# Calls on a channel with their answers

Everything that can be called on an open channel besides closing it, under both of its faces, with
what it answers.
-/

namespace ByteChannel.Mapped

/-- What can be asked of a channel besides opening and closing. -/
inductive Call
  | act (a : Act)
  | takeError
  | tryRead (n : Nat)
  | tryWrite (src : Bytes)
  | tryFlush
  | trySeek (o : Origin)
  deriving DecidableEq, Repr

inductive Answer
  | bytes (bs : Bytes)
  | byte (b : Option UInt8)
  | count (k : Nat)
  | flag (accepted : Bool)
  | number (r : Except ChannelError Nat)
  | outcome (r : Except ChannelError Unit)
  | taken (e : Option ChannelError)
  | tried (r : Except IoError Bytes)
  | triedNumber (r : Except IoError Nat)
  | triedOutcome (r : Except IoError Unit)

def performOp [Paging] (c : Mapped) : Op → Answer × Mapped
  | .read n => (c.read n).map .bytes id
  | .readByte => c.readByte.map .byte id
  | .reserveGet n => (c.reserveGet n).map .number id
  | .reservePut n => (c.reservePut n).map .number id
  | .write src => (c.write src).map .count id
  | .writeByte b => (c.writeByte b).map .flag id
  | .seek o side => (c.seek o side).map .number id

def perform [Paging] (c : Mapped) : Call → Answer × Mapped
  | .act (.op op) => c.performOp op
  | .act .peek => c.peek.map .byte id
  | .act .flush => c.flush.map .outcome id
  | .takeError => c.takeError.map .taken id
  | .tryRead n => (c.tryRead n).map .tried id
  | .tryWrite src => (c.tryWrite src).map .triedNumber id
  | .tryFlush => c.tryFlush.map .triedOutcome id
  | .trySeek o => (c.trySeek o).map .triedNumber id

theorem perform_act [Paging] (c : Mapped) (a : Act) : (c.perform (.act a)).2 = c.act a := by
  cases a with
  | op op => cases op <;> rfl
  | peek => rfl
  | flush => rfl

end ByteChannel.Mapped
