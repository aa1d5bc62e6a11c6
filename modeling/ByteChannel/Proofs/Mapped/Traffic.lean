import ByteChannel.Proofs.Mapped.Perform

/-!
# What goes in and out with a call

Any call on an open channel as a transfer between the channel and its file. The bytes that it hands
out are those of the file at the get cursor. The bytes that it reports as stored are laid over the
file at the put cursor where the mapping shares its changes, and touch no file where it does not.
-/

namespace ByteChannel

/-- Some bytes are those of a file from a position on. -/
def StandsAt (file : Bytes) (pos : Nat) (bs : Bytes) : Prop :=
  bs = slice file pos (pos + bs.length)

theorem standsAt_slice (file : Bytes) (pos stop : Nat) :
    StandsAt file pos (slice file pos stop) := by
  unfold StandsAt
  rw [slice, slice, Nat.add_sub_cancel_left]
  exact List.prefix_iff_eq_take.1 (List.take_prefix _ _)

theorem standsAt_nil (file : Bytes) (pos : Nat) : StandsAt file pos [] :=
  (slice_of_stop_le_start file (Nat.le_refl pos)).symm

namespace Mapped

/-- The bytes that a call reports as stored. -/
def storedBy [Paging] (c : Mapped) : Call → Bytes
  | .act (.op op) => c.stored op
  | .tryWrite src => c.stored (.write src)
  | _ => []

def Answer.received : Answer → Bytes
  | .bytes bs => bs
  | .byte b => b.toList
  | .tried (.ok bs) => bs
  | _ => []

variable {c d : Mapped} {i : Nat} {o : Opening} {m : OpenMode} {bs : Bytes}

theorem Live.forget (h : Live m c i o) (e : Option ChannelError) :
    Live m { c with error := e } i o :=
  { h with }

theorem Live.perform [Paging] (h : Live m c i o) (hword : o.length ≤ maxWord) (call : Call) :
    Live m (c.perform call).2 i o := by
  cases call with
  | act a =>
    rw [perform_act]
    exact (h.act hword a).toLive
  | takeError => exact h.forget none
  | tryRead n =>
    have hread := (h.read n).toLive
    simp only [Mapped.perform, tryRead, Prod.map, id_eq]
    split
    · exact h
    · split
      · split
        · exact hread.forget none
        · exact hread
      · exact hread
  | tryWrite src =>
    have hwrite := (h.write src).toLive
    simp only [Mapped.perform, tryWrite, Prod.map, id_eq]
    split
    · exact hwrite.forget none
    · exact hwrite
  | tryFlush => exact (h.act hword .flush).toLive
  | trySeek origin => exact (h.act hword (.op (.seek origin .both))).toLive

theorem like_perform_closed [Paging] (h : c.isOpen = false) (call : Call) :
    c.table.Like (c.perform call).2.table := by
  have hread : c.canRead = false := by rw [canRead, h]; rfl
  have hwrite : c.canWrite = false := by rw [canWrite, h]; rfl
  have hsync : c.table.Like c.flush.2.table := by
    unfold flush
    dsimp only
    split <;> exact View.like_sync c.view c.table
  cases call with
  | act a =>
    rw [perform_act]
    cases a with
    | op op =>
      cases op with
      | read n => rw [act, after, Mapped.read, if_pos hread]; exact .refl _
      | readByte => rw [act, after, readByte_refused hread]; exact .refl _
      | reserveGet n => rw [act, after, Mapped.reserveGet, if_pos h]; exact .refl _
      | reservePut n => rw [act, after, Mapped.reservePut, if_pos h]; exact .refl _
      | write src => rw [act, after, Mapped.write, if_pos hwrite]; exact .refl _
      | writeByte b => rw [act, after, Mapped.writeByte, if_pos hwrite]; exact .refl _
      | seek o side => rw [act, after, Mapped.seek, if_pos h]; exact .refl _
    | peek => rw [act, peek_refused hread]; exact .refl _
    | flush => exact hsync
  | takeError => exact .refl _
  | tryRead n =>
    have hnone : c.tryRead n = (.error ChannelError.notOpen.toIoError, c) := if_pos h
    simp only [Mapped.perform, hnone, Prod.map, id_eq]
    exact .refl _
  | tryWrite src =>
    have hnone : c.write src = (0, c.latch (some .notOpenForOutput)) := if_pos hwrite
    simp only [Mapped.perform, tryWrite, hnone, Prod.map, id_eq]
    split <;> exact .refl _
  | tryFlush => exact hsync
  | trySeek o =>
    have hnone : c.seek o .both = (.error .notOpen, c) := if_pos h
    simp only [Mapped.perform, trySeek, hnone, Prod.map, id_eq]
    exact .refl _

/-! ## Stored bytes -/

/-- Bytes were stored at the put cursor, inside the mapping. -/
structure Lays (c d : Mapped) (o : Opening) (bs : Bytes) : Prop where
  like : (c.table.lay o c.putPos (o.passes bs)).Like d.table
  fits : c.putPos + bs.length ≤ o.length

theorem Framed.lays_nothing (h : c.Framed i o) (hlike : c.table.Like d.table) :
    Lays c d o [] := by
  refine ⟨?_, h.putPos_le⟩
  rwa [Opening.passes_nil, MapTable.lay_nil]

namespace Live

theorem lays_store [Paging] (h : Live m c i o) (hw : m.isWritable = true)
    (hbs : bs.length ≤ c.put.available) : Lays c (c.store bs) o bs := by
  obtain ⟨v, d, rfl, -, hstored⟩ := h.store_moves (h.writes hw) hbs
  have hroom := h.available_put_le
  refine ⟨?_, by omega⟩
  rw [hstored]
  exact .refl _

theorem lays_write [Paging] (h : Live m c i o) (src : Bytes) :
    Lays c (c.write src).2 o (c.stored (.write src)) := by
  by_cases hw : c.mode.isWritable = true
  · obtain ⟨k, d, hwrite, hd, hkeeps, hput, hlen, hroom, -⟩ := h.write_eq hw src
    have hd : Live m d i o := (h.leaves hkeeps hd).toLive
    have hstore := hd.lays_store (h.mode_eq ▸ hw) (hlen.symm ▸ hroom)
    rw [stored, hwrite]
    refine ⟨?_, hput ▸ hstore.fits⟩
    rw [← hput]
    exact (hkeeps.table.lay o _ _).trans hstore.like
  · have hwrite : c.write src = (0, c.latch (some .notOpenForOutput)) := if_pos (not_canWrite hw)
    rw [stored, hwrite, List.take_zero]
    exact h.lays_nothing (.refl _)

theorem lays_writeByte [Paging] (h : Live m c i o) (b : UInt8) :
    Lays c (c.writeByte b).2 o (c.stored (.writeByte b)) := by
  by_cases hw : c.mode.isWritable = true
  · obtain ⟨d, hwrite, hd⟩ := h.writeByte_eq hw b
    rw [stored, hwrite]
    by_cases ha : 0 < d.put.available
    · have hone : [b].length ≤ d.put.available := ha
      have hlive : Live m d i o := (h.leaves hd.keeps hd.toFramed).toLive
      have hstore := hlive.lays_store (h.mode_eq ▸ hw) hone
      rw [if_pos ha, if_pos rfl]
      refine ⟨?_, hd.putPos_eq ▸ hstore.fits⟩
      rw [← hd.putPos_eq]
      exact (hd.keeps.table.lay o _ _).trans hstore.like
    · rw [if_neg ha, if_neg Bool.false_ne_true]
      exact h.lays_nothing hd.keeps.table
  · have hwrite : c.writeByte b = (false, c.latch (some .notOpenForOutput)) :=
      if_pos (not_canWrite hw)
    rw [stored, hwrite, if_neg Bool.false_ne_true]
    exact h.lays_nothing (.refl _)

theorem like_seek (h : Live m c i o) (hword : o.length ≤ maxWord) (origin : Origin) (side : Side) :
    c.table.Like (c.seek origin side).2.table := by
  obtain ⟨d, hseek, -, hkeeps, -⟩ := h.toFramed.seek hword origin side
  rw [hseek]
  exact hkeeps.table

/-- What any call leaves of the file. -/
theorem lays_perform [Paging] (h : Live m c i o) (hword : o.length ≤ maxWord) (call : Call) :
    Lays c (c.perform call).2 o (c.storedBy call) := by
  cases call with
  | act a =>
    cases a with
    | op op =>
      cases op with
      | read n => exact h.lays_nothing (h.keeps_read n).1.table
      | readByte => exact h.lays_nothing h.keeps_readByte.1.table
      | reserveGet n => exact h.lays_nothing (h.keeps_reserveGet n).1.table
      | reservePut n => exact h.lays_nothing (h.keeps_reservePut n).1.table
      | write src => exact h.lays_write src
      | writeByte b => exact h.lays_writeByte b
      | seek origin side => exact h.lays_nothing (h.like_seek hword origin side)
    | peek => exact h.lays_nothing h.keeps_peek.1.table
    | flush => exact h.lays_nothing h.flush.1.table
  | takeError => exact h.lays_nothing (.refl _)
  | tryRead n =>
    have hread := (h.keeps_read n).1.table
    apply h.lays_nothing
    simp only [Mapped.perform, tryRead, Prod.map, id_eq]
    split
    · exact .refl _
    · split
      · split <;> exact hread
      · exact hread
  | tryWrite src =>
    have hwrite := h.lays_write src
    refine ⟨?_, hwrite.fits⟩
    simp only [Mapped.perform, tryWrite, Prod.map, id_eq]
    split
    · exact hwrite.like
    · exact hwrite.like
  | tryFlush => exact h.lays_nothing h.flush.1.table
  | trySeek origin => exact h.lays_nothing (h.like_seek hword origin .both)

end Live

/-! ## Bytes handed out -/

variable [Paging]

theorem fst_readByte (c : Mapped) : c.readByte.1 = c.peek.1 := by
  unfold readByte
  dsimp only
  split
  · next b hb => exact hb.symm
  · next hb => exact hb.symm

theorem received_tryRead (c : Mapped) (n : Nat) :
    Answer.received (.tried (c.tryRead n).1) = (c.read n).1 := by
  unfold tryRead
  by_cases hopen : c.isOpen = false
  · have hread : c.read n = ([], c) := if_pos (by rw [canRead, hopen]; rfl)
    rw [if_pos hopen, hread]
    rfl
  · rw [if_neg hopen]
    dsimp only
    split
    · next hnone =>
      rw [hnone.1]
      split <;> rfl
    · rfl

namespace Framed

theorem standsAt_read (h : c.Framed i o) (hshared : o.mode ≠ .copyOnWrite) (n : Nat) :
    StandsAt (c.table.file o).bytes c.getPos (c.read n).1 := by
  by_cases hr : c.mode.isReadable = true
  · obtain ⟨k, d, hread, -⟩ := h.read hr hshared n
    rw [hread]
    exact standsAt_slice _ _ _
  · have hread : c.read n = ([], c) := if_pos (not_canRead hr)
    rw [hread]
    exact standsAt_nil _ _

/-- The byte that is at hand next. -/
theorem standsAt_next? (h : c.Framed i o) (hshared : o.mode ≠ .copyOnWrite)
    (hlen : o.length ≤ (c.table.file o).bytes.length) :
    StandsAt (c.table.file o).bytes c.getPos c.next?.toList := by
  unfold next?
  by_cases ha : 0 < c.get.available
  · have hroom := h.available_get_le
    have hbyte := h.byteAt (h.depicts_file hshared) hlen ha
    rw [head?_slice, if_pos (by omega)] at hbyte
    rw [if_pos ha]
    apply List.ext_getElem?
    intro k
    rw [getElem?_slice, Nat.add_sub_cancel_left]
    cases k with
    | zero => exact hbyte
    | succ k => simp
  · rw [if_neg ha]
    exact standsAt_nil _ _

theorem standsAt_peek (h : c.Framed i o) (hshared : o.mode ≠ .copyOnWrite)
    (hlen : o.length ≤ (c.table.file o).bytes.length) :
    StandsAt (c.table.file o).bytes c.getPos c.peek.1.toList := by
  by_cases hr : c.mode.isReadable = true
  · obtain ⟨d, hpeek, hd⟩ := h.peek_eq hr
    have hfile := hd.keeps.table.file o
    rw [hpeek, ← hfile, ← hd.getPos_eq]
    exact hd.toFramed.standsAt_next? hshared (hfile.symm ▸ hlen)
  · rw [peek_refused (not_canRead hr)]
    exact standsAt_nil _ _

/-- Whatever a call hands out is what the file has at the get cursor. -/
theorem standsAt_received (h : c.Framed i o) (hshared : o.mode ≠ .copyOnWrite)
    (hlen : o.length ≤ (c.table.file o).bytes.length) (call : Call) :
    StandsAt (c.table.file o).bytes c.getPos (c.perform call).1.received := by
  cases call with
  | act a =>
    cases a with
    | op op =>
      cases op with
      | read n => exact h.standsAt_read hshared n
      | readByte =>
        have hpeek := h.standsAt_peek hshared hlen
        rw [← fst_readByte] at hpeek
        exact hpeek
      | reserveGet n => exact standsAt_nil _ _
      | reservePut n => exact standsAt_nil _ _
      | write src => exact standsAt_nil _ _
      | writeByte b => exact standsAt_nil _ _
      | seek origin side => exact standsAt_nil _ _
    | peek => exact h.standsAt_peek hshared hlen
    | flush => exact standsAt_nil _ _
  | tryRead n =>
    have hread := h.standsAt_read hshared n
    rw [← received_tryRead] at hread
    exact hread
  | takeError => exact standsAt_nil _ _
  | tryWrite src => exact standsAt_nil _ _
  | tryFlush => exact standsAt_nil _ _
  | trySeek origin => exact standsAt_nil _ _

end Framed

end Mapped

end ByteChannel
