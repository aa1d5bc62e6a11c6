import ByteChannel.Mapped.Transfer

/-!
# Operations on a mapped channel as data

The operations that move bytes or the window, and the channel after one or after a list of them.
-/

namespace ByteChannel.Mapped

/-- The operations that move bytes or the window. -/
inductive Op
  | read (n : Nat)
  | readByte
  | reserveGet (n : Nat)
  | reservePut (n : Nat)
  | write (src : Bytes)
  | writeByte (b : UInt8)
  | seek (origin : Origin) (side : Side)
  deriving DecidableEq, Repr

def after [Paging] (c : Mapped) : Op → Mapped
  | .read n => (c.read n).2
  | .readByte => c.readByte.2
  | .reserveGet n => (c.reserveGet n).2
  | .reservePut n => (c.reservePut n).2
  | .write src => (c.write src).2
  | .writeByte b => (c.writeByte b).2
  | .seek origin side => (c.seek origin side).2

def afterAll [Paging] (c : Mapped) : List Op → Mapped
  | [] => c
  | op :: ops => (c.after op).afterAll ops

/-- The bytes that an operation reports as stored. -/
def stored [Paging] (c : Mapped) : Op → Bytes
  | .write src => src.take (c.write src).1
  | .writeByte b => if (c.writeByte b).1 then [b] else []
  | _ => []

end ByteChannel.Mapped
