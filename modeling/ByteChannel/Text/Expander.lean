import ByteChannel.Text.Newline
import ByteChannel.Transfer

/-!
# Writing text

An expander writes a text with two-byte line ends. It gathers short pieces in a batch,
never parts a line end between two batches, and reports how much of the source the device
took: a carriage return that it put in is not counted, nor is a line feed that was lost.
-/

namespace ByteChannel.Text

structure Expander where
  capacity : Nat
  /-- At least one line end fits. -/
  two_le_capacity : 2 ≤ capacity
  /-- What is gathered but not yet written, the last byte first. -/
  gathered : Bytes := []
  /-- How many more bytes the batch takes. -/
  room : Nat := capacity
  room_eq : room = capacity - gathered.length := by rfl
  /-- Bytes of the source that the device has taken. -/
  taken : Nat := 0
  /-- Line ends in the batch. -/
  newlines : Nat := 0
  error : Option IoError := none

namespace Expander

def ofCapacity (n : Nat) : Expander :=
  { capacity := max n 2, two_le_capacity := Nat.le_max_right n 2 }

def standard : Expander := ofCapacity (2 * defaultBufferSize)

/-- Without what is gathered. -/
def emptied (t : Expander) : Expander :=
  { t with gathered := [], newlines := 0, room := t.capacity, room_eq := rfl }

def cleared (t : Expander) : Expander := { t.emptied with taken := 0, error := none }

def batch (t : Expander) : Bytes := t.gathered.reverse

def gather (t : Expander) (bs : Bytes) : Expander :=
  { t with
    gathered := bs.reverseAux t.gathered
    room := t.room - bs.length
    room_eq := by
      rw [t.room_eq, List.reverseAux_eq, List.length_append, List.length_reverse]
      omega }

theorem batch_gather (t : Expander) (bs : Bytes) : (t.gather bs).batch = t.batch ++ bs := by
  simp [batch, gather, List.reverseAux_eq]

variable {σ : Type} [Device σ]

/-- Bytes without line feeds, past the batch. -/
def writeDirect (t : Expander) (s : σ) (bs : Bytes) : Bool × Expander × σ :=
  let r := writeFully s bs
  (r.1.error.isNone, { t with taken := t.taken + r.1.done, error := r.1.error }, r.2)

/-- How many of the first `done` bytes of the batch are carriage returns that were put in. Each
stands right before its line feed, so one may be out while its line feed is not. -/
def insertedWithin (t : Expander) (done : Nat) : Nat :=
  if done = t.gathered.length then t.newlines
  else
    let lost := t.batch.drop done
    t.newlines - countNewlines lost + if 0 < done ∧ lost.head? = some lf then 1 else 0

def flush (t : Expander) (s : σ) : Bool × Expander × σ :=
  let r := writeFully s t.batch
  (r.1.error.isNone,
    { t.emptied with
      taken := t.taken + (r.1.done - t.insertedWithin r.1.done)
      error := r.1.error },
    r.2)

def appendNewline (t : Expander) (s : σ) : Bool × Expander × σ :=
  let r := if t.room < 2 then t.flush s else (true, t, s)
  if r.1 then (true, { r.2.1.gather [cr, lf] with newlines := r.2.1.newlines + 1 }, r.2.2)
  else r

/-- Gathers bytes without line feeds. What exceeds the whole batch is written past it. -/
def append (t : Expander) (s : σ) (bs : Bytes) : Bool × Expander × σ :=
  if t.capacity ≤ bs.length then
    let r := if t.gathered = [] then (true, t, s) else t.flush s
    if r.1 then r.2.1.writeDirect r.2.2 bs else r
  else if t.room = 0 then
    let r := t.flush s
    if r.1 then (true, r.2.1.gather bs, r.2.2) else r
  else if t.room < bs.length then
    let r := (t.gather (bs.take t.room)).flush s
    if r.1 then (true, r.2.1.gather (bs.drop t.room), r.2.2) else r
  else (true, t.gather bs, s)

def appendLines (t : Expander) (s : σ) : List Bytes → Bool × Expander × σ
  | [] => (true, t, s)
  | l :: ls =>
    let r := if l = [] then (true, t, s) else t.append s l
    if r.1 then
      let r := r.2.1.appendNewline r.2.2
      if r.1 then appendLines r.2.1 r.2.2 ls else r
    else r

/-- Writes out the batch, and after it what follows the last line end. -/
def finish (t : Expander) (s : σ) (rest : Bytes) : Bool × Expander × σ :=
  if rest = [] then if t.gathered = [] then (true, t, s) else t.flush s
  else if t.gathered = [] then t.writeDirect s rest
  else if t.room < rest.length then
    let r := t.flush s
    if r.1 then r.2.1.writeDirect r.2.2 rest else r
  else (t.gather rest).flush s

/-- Writes `src` with its line ends expanded. The count is in bytes of `src`. -/
def write (t : Expander) (s : σ) (src : Bytes) : Transfer × Expander × σ :=
  let parts := lines src
  let r := t.cleared.appendLines s parts.1
  let r := if r.1 then r.2.1.finish r.2.2 parts.2 else r
  (⟨r.2.1.taken, r.2.1.error⟩, { r.2.1.emptied with error := none }, r.2.2)

end Expander

end ByteChannel.Text
