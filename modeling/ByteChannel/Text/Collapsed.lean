import ByteChannel.Text.Newline
import ByteChannel.Transfer

/-!
# Reading text

Reads bytes with every two-byte line end made one. The place that a line end leaves free
is filled again from the device. A carriage return at the end of the place asked for is
settled by one byte of lookahead, which goes back to the device if it is no line feed.
-/

namespace ByteChannel.Text

variable {σ : Type} [Device σ]

def keep (b : UInt8) (r : Intake × σ) : Intake × σ := (⟨b :: r.1.bytes, r.1.error⟩, r.2)

/-- What a carriage return becomes when there is room for no more. A lookahead byte that the device
does not take back is lost. -/
def settleReturn (s : σ) : UInt8 × σ :=
  let r := readFully s 1
  match r.1.bytes with
  | [] => (cr, r.2)
  | b :: _ => if b = lf then (lf, r.2) else (cr, (Device.seek r.2 (.current (-1))).2)

/-- Collapses what was read, `rest`, where `room` places are free and, unless `atEnd`, the device
may have more. -/
def collapseRest (s : σ) (atEnd : Bool) (error : Option IoError) (rest : Bytes) (room : Nat) :
    Intake × σ :=
  match rest with
  | [] => (⟨[], error⟩, s)
  | [b] =>
    if atEnd then (⟨[b], error⟩, s)
    else if room = 0 then
      if b = cr then
        let r := settleReturn s
        (⟨[r.1], error⟩, r.2)
      else (⟨[b], error⟩, s)
    else
      let r := readFully s room
      let error := error.or r.1.error
      let atEnd := r.1.error.isSome || r.1.bytes.length != room
      match _h : r.1.bytes with
      | [] => (⟨[b], error⟩, r.2)
      | a :: more =>
        if b = cr ∧ a = lf then keep lf (collapseRest r.2 atEnd error more 1)
        else keep b (collapseRest r.2 atEnd error (a :: more) 0)
  | b :: a :: more =>
    if b = cr ∧ a = lf then keep lf (collapseRest s atEnd error more (room + 1))
    else keep b (collapseRest s atEnd error (a :: more) room)
termination_by rest.length + room
decreasing_by
  · have := _h ▸ length_bytes_readFully_le s room
    simp only [List.length_cons] at *
    omega
  · have := _h ▸ length_bytes_readFully_le s room
    simp only [List.length_cons] at *
    omega
  · simp only [List.length_cons]
    omega
  · simp only [List.length_cons]
    omega

def readCollapsed (s : σ) (n : Nat) : Intake × σ :=
  let r := readFully s n
  let atEnd := r.1.error.isSome || r.1.bytes.length != n
  collapseRest r.2 atEnd r.1.error r.1.bytes 0

end ByteChannel.Text
