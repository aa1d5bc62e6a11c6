import ByteChannel.Mapping

/-!
# Windows into mappings

A view shows one range of an opening. A shared window shows the file itself, so that all
windows on it agree. A private window copies a page when it is first written and shows
its copy from then on; the copies are gone when the window is.
-/

namespace ByteChannel

structure Window where
  length : Nat
  /-- Pages that were written here, by their number in the file. -/
  copies : List (Nat × Bytes) := []
  deriving DecidableEq, Repr

/-- A view stays attached to its opening while its window is dropped. -/
structure View where
  attached : Option Nat := none
  window : Option Window := none
  offset : Nat := 0
  deriving DecidableEq, Repr

namespace View

def isBound (v : View) : Bool := v.window.isSome

def length (v : View) : Nat := (v.window.map (·.length)).getD 0

def opening? (v : View) (t : MapTable) : Option Opening := v.attached.bind t.opening?

def maxOffset (v : View) (t : MapTable) : Nat := ((v.opening? t).map (·.length)).getD 0

variable [Paging]

/-- The number of the page that holds a position of the file. -/
def pageOf (pos : Nat) : Nat := pos / pageSize

def nextPage (pos : Nat) : Nat := pageOf pos * pageSize + pageSize

theorem lt_nextPage (pos : Nat) : pos < nextPage pos := by
  have := Nat.mod_lt pos pageSize_pos
  have := Nat.div_add_mod pos pageSize
  simp only [nextPage, pageOf]
  rw [Nat.mul_comm]
  omega

/-- The bytes of a file at positions `start ≤ i < stop`, as a window with these copies shows
them. -/
def shown (file : Store) (copies : List (Nat × Bytes)) (start stop : Nat) : Bytes :=
  if copies = [] then file.slice start stop
  else if stop ≤ start then []
  else
    let upTo := min stop (nextPage start)
    let here := match copies.lookup (pageOf start) with
      | some page => slice page (start % pageSize) (start % pageSize + (upTo - start))
      | none => file.slice start upTo
    here ++ shown file copies (nextPage start) stop
termination_by stop - start
decreasing_by
  have := lt_nextPage start
  omega

/-- The bytes at positions `start ≤ i < stop` of the window. -/
def range (v : View) (t : MapTable) (start stop : Nat) : Bytes :=
  match v.opening? t, v.window with
  | some o, some w =>
    shown (t.file o) w.copies (v.offset + start) (v.offset + min stop w.length)
  | _, _ => []

def byteAt (v : View) (t : MapTable) (pos : Nat) : UInt8 := (v.range t pos (pos + 1)).headD 0

def bytes (v : View) (t : MapTable) : Bytes := v.range t 0 v.length

def isWritable (v : View) (t : MapTable) : Bool :=
  v.isBound && ((v.opening? t).map (·.mode.isWritable)).getD false

/-- Writes bytes into the private copies of their pages. A copy that is missing is made. -/
def copyBytes (file : Store) (copies : List (Nat × Bytes)) (pos : Nat) (bs : Bytes) :
    List (Nat × Bytes) :=
  if bs = [] then copies
  else
    let room := nextPage pos - pos
    let old := (copies.lookup (pageOf pos)).getD
      (file.slice (pageOf pos * pageSize) (nextPage pos))
    let page := overwrite old (pos % pageSize) (bs.take room)
    copyBytes file (Keyed.put (pageOf pos) page copies) (pos + room) (bs.drop room)
termination_by bs.length
decreasing_by
  have := lt_nextPage pos
  have := List.length_pos_iff.2 (by assumption)
  simp only [List.length_drop]
  omega

def store? (v : View) (t : MapTable) (pos : Nat) (bs : Bytes) : Option (View × MapTable) :=
  match v.opening? t, v.window with
  | some o, some w =>
    match o.mode with
    | .readOnly => none
    | .readWrite =>
      some (v, t.setFile o ((t.file o).overwrite (v.offset + pos) bs))
    | .copyOnWrite =>
      let copies := copyBytes (t.file o) w.copies (v.offset + pos) bs
      some ({ v with window := some { w with copies := copies } }, t)
  | _, _ => none

def unmap (v : View) : View := { v with window := none }

def release (v : View) (t : MapTable) : View × MapTable :=
  ({}, (v.attached.map t.release).getD t)

/-- How long a window from `offset` on is, for an opening of `total` bytes: the rest of the opening
where `len` is zero or too much. -/
def windowLength (offset len total : Nat) : Nat :=
  if len = 0 ∨ total - offset < len then total - offset else len

/-- Drops the window and makes another, on any mapping. A failure after that leaves the view
attached where it was. -/
def remap (v : View) (t : MapTable) (m : Mapping) (offset len : Nat) :
    Except ChannelError Unit × View × MapTable :=
  match m.holds, m.opening? t with
  | some i, some o =>
    let v := v.unmap
    if o.length ≤ offset then (.error (.outOfBounds offset len o.length), v, t)
    else
      let asked := t.askWindow o
      match asked.1 with
      | some e => (.error (.io e), v, asked.2)
      | none =>
        let t := asked.2.retain i
        let t := (v.attached.map t.release).getD t
        (.ok (),
          { attached := some i
            window := some { length := windowLength offset len o.length }
            offset := offset },
          t)
  | _, _ => (.error .unmapped, v, t)

def moveTo (v : View) (t : MapTable) (offset len : Nat) :
    Except ChannelError Unit × View × MapTable :=
  v.remap t ⟨v.attached⟩ offset len

def bind (t : MapTable) (m : Mapping) (offset len : Nat) :
    Except ChannelError Unit × View × MapTable :=
  View.remap {} t m offset len

/-- Writes a shared writable window back to its file. -/
def sync (v : View) (t : MapTable) : Except ChannelError Unit × MapTable :=
  if v.isBound && ((v.opening? t).map (·.mode == .readWrite)).getD false then
    let asked := t.askSync
    match asked.1 with
    | some e => (.error (.flushFailed e.message), asked.2)
    | none => (.ok (), asked.2)
  else (.ok (), t)

def describe (v : View) : String :=
  "View \x7b offset: " ++ toString v.offset ++ ", len: " ++ toString v.length ++ ", bound: " ++
    toString v.isBound ++ " \x7d"

theorem length_shown_le (file : Store) (copies : List (Nat × Bytes)) (start stop : Nat) :
    (shown file copies start stop).length ≤ stop - start := by
  fun_induction shown file copies start stop with
  | case1 =>
    rw [Store.slice_eq, length_slice]
    exact Nat.min_le_left _ _
  | case2 => exact Nat.zero_le _
  | case3 start hc hs upTo here ih =>
    have hh : here.length ≤ upTo - start := by
      simp only [here]
      split
      · rw [length_slice]
        omega
      · rw [Store.slice_eq, length_slice]
        exact Nat.min_le_left _ _
    have := lt_nextPage start
    have hu : upTo = min stop (nextPage start) := rfl
    rw [List.length_append]
    omega

theorem length_range_le (v : View) (t : MapTable) (start stop : Nat) :
    (v.range t start stop).length ≤ stop - start := by
  unfold range
  split
  · exact Nat.le_trans (length_shown_le _ _ _ _) (by omega)
  · exact Nat.zero_le _

end View

end ByteChannel
