import Mathlib
import ByteChannel.Proofs.Mapped.History
import ByteChannel.Proofs.Ranges

/-!
# No range of a mapped channel is outside its window

Every operation with a range is written here once more, so that the range has to be there: a range
of the window that is read, a place in it that is written, a destination that a read fills and the
part of a source that a write takes. On an open channel each has the result of the operation
itself. From there it follows what a single byte does at the positions of the two cursors.
-/

namespace ByteChannel

namespace View

def range? [Paging] (v : View) (t : MapTable) (start stop : Nat) : Option Bytes :=
  if start ≤ stop ∧ stop ≤ v.length then some (v.range t start stop) else none

def byteAt? [Paging] (v : View) (t : MapTable) (pos : Nat) : Option UInt8 :=
  if pos < v.length then some (v.byteAt t pos) else none

end View

namespace Mapped

variable {c d : Mapped} {i : Nat} {o : Opening}

section

variable [Paging]

/-! ## The operations with their ranges checked -/

def getData? (c : Mapped) : Option Bytes := c.view.range? c.table c.get.next c.get.limit

def putData? (c : Mapped) : Option Bytes := c.view.range? c.table c.put.base c.put.next

def takeWindow? (c : Mapped) (n : Nat) : Option (Bytes × Mapped) := do
  let k := min n c.get.available
  let bs ← c.view.range? c.table c.get.next (c.get.next + k)
  let bs ← fitting? n bs
  some (bs, { c with get := c.get.bump k })

def read? (c : Mapped) (n : Nat) : Option (Bytes × Mapped) :=
  if c.canRead = false then some ([], c)
  else do
    let first ← c.takeWindow? n
    let rest := n - min n c.get.available
    if rest = 0 then some (first.1, first.2.setPut first.2.get.next)
    else
      let r := first.2.reserveGet rest
      match r.1 with
      | .error e =>
        let c := r.2.latch (some e)
        some (first.1, c.setPut c.get.next)
      | .ok _ => do
        let more ← r.2.takeWindow? rest
        some (first.1 ++ more.1, more.2.setPut more.2.get.next)

def peek? (c : Mapped) : Option (Option UInt8 × Mapped) :=
  if c.canRead = false then some (none, c)
  else if 0 < c.get.available then do
    let b ← c.view.byteAt? c.table c.get.next
    some (some b, c)
  else if c.offset + c.get.limit < c.size then
    let r := { c with offset := c.offset + c.get.limit }.slide 0
    match r.1 with
    | .error e => some (none, r.2.latch (some e))
    | .ok () =>
      if 0 < r.2.get.available then do
        let b ← r.2.view.byteAt? r.2.table r.2.get.next
        some (some b, r.2)
      else some (none, r.2)
  else some (none, c)

def readByte? (c : Mapped) : Option (Option UInt8 × Mapped) := do
  let r ← c.peek?
  match r.1 with
  | some b => some (some b, { r.2 with get := r.2.get.bump 1 })
  | none => some (none, r.2)

def store? (c : Mapped) (bs : Bytes) : Option Mapped :=
  if bs = [] then some c
  else
    match c.view.store? c.table c.put.next bs with
    | some r =>
      if c.put.next + bs.length ≤ c.view.length then
        some { c with view := r.1, table := r.2, put := c.put.bump bs.length }
      else none
    | none => some (c.latch (some .windowIsReadOnly))

def writeByte? (c : Mapped) (b : UInt8) : Option (Bool × Mapped) :=
  if c.canWrite = false then some (false, c.latch (some .notOpenForOutput))
  else if 0 < c.put.available then do
    let c ← c.store? [b]
    some (true, c)
  else
    let c := { c with offset := c.offset + c.put.limit }
    if c.size ≤ c.offset then some (false, { c with offset := min c.offset c.size }.dropWindow)
    else
      let r := c.slide 0
      match r.1 with
      | .error e => some (false, r.2.latch (some e))
      | .ok () =>
        if r.2.put.available = 0 then some (false, r.2)
        else do
          let c ← r.2.store? [b]
          some (true, c)

def write? (c : Mapped) (src : Bytes) : Option (Nat × Mapped) :=
  if c.canWrite = false then some (0, c.latch (some .notOpenForOutput))
  else if src.length ≤ c.put.available then do
    let c ← c.store? src
    some (src.length, c.setGet c.put.next)
  else if c.size ≤ c.offset + c.put.consumed then some (0, { c with offset := c.size }.dropWindow)
  else
    let r := c.reservePut src.length
    match r.1 with
    | .error e => some (0, r.2.latch (some e))
    | .ok room => do
      let k := min src.length room
      let bs ← slice? src 0 k
      let c ← r.2.store? bs
      some (k, c.setGet c.put.next)

/-- Whatever is called next, its ranges are there. -/
structure InRange (c : Mapped) : Prop where
  getData : c.getData? = some c.getData
  putData : c.putData? = some c.putData
  read : ∀ n, c.read? n = some (c.read n)
  peek : c.peek? = some c.peek
  readByte : c.readByte? = some c.readByte
  write : ∀ src, c.write? src = some (c.write src)
  writeByte : ∀ b, c.writeByte? b = some (c.writeByte b)

namespace Framed

theorem getData?_eq_some (h : c.Framed i o) : c.getData? = some c.getData :=
  if_pos ⟨c.get.next_le_limit, Nat.le_of_eq h.limit_get⟩

theorem putData?_eq_some (h : c.Framed i o) : c.putData? = some c.putData :=
  if_pos ⟨c.put.base_le_next, h.next_put_le⟩

theorem takeWindow?_eq_some (h : c.Framed i o) (n : Nat) :
    c.takeWindow? n = some (c.takeWindow n) := by
  have hin : c.get.next ≤ c.get.next + min n c.get.available ∧
      c.get.next + min n c.get.available ≤ c.view.length := by
    have := h.next_get_le
    rw [h.available_get]
    omega
  have hfits : (c.takeWindow n).1.length ≤ n := by
    have := c.view.length_range_le c.table c.get.next (c.get.next + min n c.get.available)
    simp only [Mapped.takeWindow]
    omega
  have hfitting := fitting?_eq_some hfits
  simp only [Mapped.takeWindow] at hfitting
  simp only [takeWindow?, View.range?, if_pos hin, Mapped.takeWindow, Option.bind_eq_bind,
    Option.bind_some, hfitting]

theorem read?_eq_some (h : c.Framed i o) (n : Nat) : c.read? n = some (c.read n) := by
  unfold read? Mapped.read
  rw [h.takeWindow?_eq_some]
  by_cases hr : c.canRead = false
  · rw [if_pos hr, if_pos hr]
  rw [if_neg hr, if_neg hr]
  simp only [Option.bind_eq_bind, Option.bind_some]
  by_cases hn : n - min n c.get.available = 0
  · rw [if_pos hn, if_pos hn]
  rw [if_neg hn, if_neg hn]
  have htake : (c.takeWindow n).2.Framed i o := h.bumpGet _
  obtain ⟨r, d, hreserve, hd, -⟩ := htake.reserveGet (n - min n c.get.available)
  rw [hreserve]
  cases r with
  | error e => rfl
  | ok room => simp only [hd.takeWindow?_eq_some, Option.bind_some]

theorem byteAt?_eq_some (h : c.Framed i o) (ha : 0 < c.get.available) :
    c.view.byteAt? c.table c.get.next = some (c.view.byteAt c.table c.get.next) := by
  rw [h.available_get] at ha
  exact if_pos (by omega)

theorem peek?_eq_some (h : c.Framed i o) : c.peek? = some c.peek := by
  unfold peek? Mapped.peek
  by_cases hr : c.canRead = false
  · rw [if_pos hr, if_pos hr]
  rw [if_neg hr, if_neg hr]
  by_cases ha : 0 < c.get.available
  · rw [if_pos ha, if_pos ha, h.byteAt?_eq_some ha]
    rfl
  have ha0 : c.get.available = 0 := Nat.eq_zero_of_not_pos ha
  rw [if_neg ha, if_neg ha, h.limit_get_eq ha0]
  by_cases hin : c.getPos < c.size
  · obtain ⟨r, d, hslide, hd, -⟩ := h.slide h.getPos_le 0
    rw [if_pos hin, if_pos hin, hslide]
    cases r with
    | error e => rfl
    | ok _ =>
      dsimp only
      by_cases had : 0 < d.get.available
      · rw [if_pos had, if_pos had, hd.byteAt?_eq_some had]
        rfl
      · rw [if_neg had, if_neg had]
  · rw [if_neg hin, if_neg hin]

theorem readByte?_eq_some (h : c.Framed i o) : c.readByte? = some c.readByte := by
  rw [readByte?, h.peek?_eq_some, Mapped.readByte]
  simp only [Option.bind_eq_bind, Option.bind_some]
  cases c.peek.1 <;> rfl

theorem store?_eq_some (h : c.Framed i o) {bs : Bytes} (hbs : bs.length ≤ c.put.available) :
    c.store? bs = some (c.store bs) := by
  have hin : c.put.next + bs.length ≤ c.view.length := by
    have := h.next_put_le
    rw [h.available_put] at hbs
    omega
  unfold store? Mapped.store
  by_cases hnil : bs = []
  · rw [if_pos hnil, if_pos hnil]
  rw [if_neg hnil, if_neg hnil]
  cases c.view.store? c.table c.put.next bs with
  | none => rfl
  | some r => exact if_pos hin

theorem writeByte?_eq_some (h : c.Framed i o) (b : UInt8) :
    c.writeByte? b = some (c.writeByte b) := by
  unfold writeByte? Mapped.writeByte
  by_cases hw : c.canWrite = false
  · rw [if_pos hw, if_pos hw]
  rw [if_neg hw, if_neg hw]
  by_cases ha : 0 < c.put.available
  · have hone : [b].length ≤ c.put.available := ha
    rw [if_pos ha, if_pos ha, h.store?_eq_some hone]
    rfl
  have ha0 : c.put.available = 0 := Nat.eq_zero_of_not_pos ha
  rw [if_neg ha, if_neg ha, h.limit_put_eq ha0]
  dsimp only
  split
  · rfl
  · obtain ⟨r, d, hslide, hd, -⟩ := h.slide h.putPos_le 0
    rw [hslide]
    cases r with
    | error e => rfl
    | ok _ =>
      dsimp only
      by_cases had : d.put.available = 0
      · rw [if_pos had, if_pos had]
      · have hone : [b].length ≤ d.put.available := Nat.pos_of_ne_zero had
        rw [if_neg had, if_neg had, hd.store?_eq_some hone]
        rfl

theorem write?_eq_some (h : c.Framed i o) (src : Bytes) : c.write? src = some (c.write src) := by
  unfold write? Mapped.write
  by_cases hw : c.canWrite = false
  · rw [if_pos hw, if_pos hw]
  rw [if_neg hw, if_neg hw]
  by_cases hfits : src.length ≤ c.put.available
  · rw [if_pos hfits, if_pos hfits, h.store?_eq_some hfits]
    rfl
  rw [if_neg hfits, if_neg hfits]
  by_cases hend : c.size ≤ c.offset + c.put.consumed
  · rw [if_pos hend, if_pos hend]
  rw [if_neg hend, if_neg hend]
  have hmode : c.mode.isWritable = true := by simpa [canWrite, h.isOpen] using hw
  obtain ⟨r, d, hreserve, hd, -, -, -, hcase⟩ := h.reservePut hmode src.length
  rw [hreserve]
  obtain ⟨rfl, -⟩ | ⟨⟨e, rfl⟩, -⟩ := hcase
  · have hcut : slice? src 0 (min src.length d.put.available) =
        some (src.take (min src.length d.put.available)) :=
      slice?_zero_eq_some (Nat.min_le_left _ _)
    have hroom : (src.take (min src.length d.put.available)).length ≤ d.put.available :=
      Nat.le_trans (List.length_take_le _ _) (Nat.min_le_right _ _)
    simp only [hcut, hd.store?_eq_some hroom, Option.bind_eq_bind, Option.bind_some]
  · rfl

theorem inRange (h : c.Framed i o) : c.InRange :=
  ⟨h.getData?_eq_some, h.putData?_eq_some, h.read?_eq_some, h.peek?_eq_some, h.readByte?_eq_some,
    h.write?_eq_some, h.writeByte?_eq_some⟩

end Framed

end

/-! ## Any state of an open channel -/

/-- The window lies at the offset and inside a mapping of this length, and both regions span it.
Without a window they are empty. -/
structure Placed (c : Mapped) (length : Nat) : Prop where
  unbound : c.view.isBound = false → c.get = .empty ∧ c.put = .empty
  bound : c.view.isBound = true → c.view.offset = c.offset ∧
    (c.get.base = 0 ∧ c.get.limit = c.view.length) ∧ c.put.base = 0 ∧ c.put.limit = c.view.length
  window_le : c.offset + c.view.length ≤ length

theorem Framed.placed (h : c.Framed i o) : c.Placed o.length where
  unbound hb := by
    have hw : c.view.window = none := by simpa [View.isBound] using hb
    have hl := View.length_unbound hw
    exact ⟨Region.eq_empty h.base_get (h.limit_get.trans hl),
      Region.eq_empty h.base_put (h.limit_put.trans hl)⟩
  bound hb := by
    obtain ⟨w, hw⟩ := Option.isSome_iff_exists.1 hb
    exact ⟨(h.bound w hw).2, ⟨h.base_get, h.limit_get⟩, h.base_put, h.limit_put⟩
  window_le := h.window_le

/-- Whatever was done with a channel over a shared or a read-only mapping, and whichever windows
were refused: its window is in place, the unread bytes at hand are those of the file, and no range
of what is called next is outside. Where the next window is granted, a byte is read or written at
the position of its side up to the end of the mapping. -/
theorem window_holds_and_ranges_are_inside [Paging] {c c' : Mapped} {entry : Entry} {o : Opening}
    (hentry : c.enter entry = (.ok (), c')) (ho : c'.mapping.opening? c'.table = some o)
    (hshared : o.mode ≠ .copyOnWrite) (hlen : o.length ≤ (c'.table.file o).bytes.length)
    (hword : o.length ≤ maxWord) (acts : List Act) :
    let d := c'.actAll acts
    let file := (d.table.file o).bytes
    d.Placed o.length ∧ d.InRange ∧
      d.getData = slice file d.getPos (d.getPos + d.getSize) ∧ d.getData.length = d.getSize ∧
      (entry.mode.isReadable = false → d.readByte = (none, d)) ∧
      (entry.mode.isReadable = true → d.table.GrantsNext o →
        let r := d.readByte
        (r.1 = none ↔ d.getPos = o.length) ∧
          ∀ b, r.1 = some b → file[d.getPos]? = some b ∧ r.2.getPos = d.getPos + 1) ∧
      (entry.mode.isWritable = true → d.table.GrantsNext o → ∀ b,
        let r := d.writeByte b
        (r.1 = false ↔ d.putPos = o.length) ∧
          (r.1 = true → r.2.putPos = d.putPos + 1 ∧
            (r.2.table.file o).bytes = file.set d.putPos b) ∧
          (r.1 = false → r.2.table.disk = d.table.disk) ∧
          ∀ name, o.name ≠ some name → r.2.table.disk.store? name = d.table.disk.store? name) := by
  intro d file
  obtain ⟨i, hstart⟩ := enter_live hentry ho
  have h : Leaves entry.mode c' d i o.plain := hstart.actAll hword acts
  have hlen : o.length ≤ file.length := Nat.le_trans hlen h.length_le
  have hroom : d.getPos + d.getSize ≤ o.length := h.available_get_le
  have hdata : d.getData = slice file d.getPos (d.getPos + d.getSize) :=
    h.getData_eq (h.depicts_file hshared)
  refine ⟨h.placed, h.inRange, hdata, ?_, fun hreads => ?_, fun hreads hg => ?_,
    fun hwrites hg b => ?_⟩
  · rw [hdata, length_slice]
    omega
  · exact readByte_refused (not_canRead (by simp [h.mode_eq, hreads]))
  · exact h.readByte_at (h.mode_eq.symm ▸ hreads) hshared hlen ⟨hg.allows, hg.accepts⟩
  · have hmode : o.plain.mode = .readWrite := by
      have hw := h.writes hwrites
      have hs : o.plain.mode ≠ .copyOnWrite := hshared
      cases hm : o.plain.mode with
      | readOnly => exact absurd hm hw
      | readWrite => rfl
      | copyOnWrite => exact absurd hm hs
    obtain ⟨hend, hstored, hrefused, hapart⟩ := h.writeByte_at (h.mode_eq.symm ▸ hwrites) hmode hlen
      ⟨hg.allows, hg.accepts⟩ b
    exact ⟨hend, hstored, hrefused, hapart.store?⟩

/-- One byte read and two written: the next byte comes from behind the one read, and with a third
one the end is reached. -/
theorem window_holds_and_ranges_are_inside_drifted :
    let table : MapTable := { disk := ⟨[("f", .ofBytes [97, 98, 99])]⟩ }
    let entry : Entry := .path "f" { read := true, write := true } false
    let acts : List Act := [.op .readByte, .op (.writeByte 88), .op (.writeByte 89), .flush, .peek]
    ∃ c', enter { table := table } entry = (.ok (), c') ∧
      (c'.actAll acts).getData = [89, 99] ∧ (c'.actAll acts).readByte.1 = some 89 ∧
      ((c'.actAll acts).writeByte 90).1 = true := by
  intro table entry acts
  let o : Opening :=
    { name := some "f"
      path := some "f"
      length := 3
      mode := .readWrite
      readable := true
      writable := true }
  have hentry : enter { table := table } entry = (.ok (), (enter { table := table } entry).2) := by
    cbv
  obtain ⟨-, -, hdata, -, -, hread, hwrite⟩ := window_holds_and_ranges_are_inside (o := o) hentry
    (by cbv) (by decide) (by cbv) (by decide) acts
  obtain ⟨hend, hbyte⟩ := hread rfl ⟨rfl, by cbv⟩
  obtain ⟨hfull, -⟩ := hwrite rfl ⟨rfl, by cbv⟩ 90
  refine ⟨_, hentry, hdata.trans (by cbv), ?_, ?_⟩
  · obtain ⟨b, hb⟩ := Option.ne_none_iff_exists'.1 (mt hend.1 (by cbv))
    rw [hb, ← (hbyte b hb).1]
    cbv
  · exact Bool.not_eq_false _ ▸ mt hfull.1 (by cbv)

/-- On a channel for output alone nothing is read, though a window is granted and the get cursor is
not at the end. -/
theorem write_only_reads_nothing :
    let table : MapTable := { disk := ⟨[("f", .ofBytes [97])]⟩ }
    let entry : Entry := .path "f" { write := true, binary := true } false
    ∃ c' o, enter { table := table } entry = (.ok (), c') ∧
      c'.mapping.opening? c'.table = some o ∧ c'.table.GrantsNext o ∧ c'.getPos = 0 ∧
      o.length = 1 ∧ c'.readByte.1 = none := by
  intro table entry
  let o : Opening :=
    { name := some "f"
      path := some "f"
      length := 1
      mode := .readWrite
      readable := true
      writable := true }
  exact ⟨(enter { table := table } entry).2, o, by cbv, by cbv, ⟨rfl, by cbv⟩, by cbv, rfl, by cbv⟩

end Mapped

end ByteChannel
