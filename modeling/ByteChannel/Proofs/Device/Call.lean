import ByteChannel.Device

/-!
# Calls on a device

The transfers and seeks of a device as data, each with its answer, so that statements can speak of
any sequence of them.
-/

namespace ByteChannel

inductive IoCall
  | read (n : Nat)
  | write (src : Bytes)
  | seek (o : Origin)
  deriving DecidableEq, Repr

inductive IoAnswer
  | bytes (r : Except IoError Bytes)
  | number (r : Except IoError Nat)

namespace Device

variable {σ : Type} [Device σ]

def perform (s : σ) : IoCall → IoAnswer × σ
  | .read n => (Device.read s n).map .bytes id
  | .write src => (Device.write s src).map .number id
  | .seek o => (Device.seek s o).map .number id

/-- One call after the other. -/
def performAll (s : σ) : List IoCall → List IoAnswer × σ
  | [] => ([], s)
  | call :: calls =>
    let r := perform s call
    let more := performAll r.2 calls
    (r.1 :: more.1, more.2)

end Device

end ByteChannel
