import ByteChannel.Proofs.Mapped.Transfer

/-!
# Single bytes at a position of the file

A single byte is read or written in the window at hand, or in another one that is asked for at the
position of its side. Only the other window moves the cursor of the other side: both are at its
start then.
-/

namespace ByteChannel.Mapped

variable {c d : Mapped} {i : Nat} {o : Opening} {image : Bytes}

/-- The byte at the get cursor, if the window has it. -/
def next? [Paging] (c : Mapped) : Option UInt8 :=
  if 0 < c.get.available then some (c.view.byteAt c.table c.get.next) else none

/-- From `c` to `d` the window was changed for another one if there was no byte left to read in it
but more of the mapping behind it. -/
structure Looks (c d : Mapped) (i : Nat) (o : Opening) : Prop extends Framed d i o where
  keeps : Keeps c d
  window : ((0 < c.get.available ∨ c.getPos = o.length) ∧ d = c) ∨
    c.get.available = 0 ∧ c.getPos < o.length ∧ d.At i o c.getPos ∧ d.Bare
  granted : c.table.GrantsNext o → c.getPos < o.length → 0 < d.get.available

/-- From `c` to `d` the window was changed for another one if there was no room left in it. At the
end of the mapping there is no other. -/
structure MakesRoom (c d : Mapped) (i : Nat) (o : Opening) : Prop extends Framed d i o where
  keeps : Keeps c d
  window : (0 < c.put.available ∧ d = c) ∨ c.put.available = 0 ∧ d.At i o c.putPos
  granted : c.table.GrantsNext o → c.putPos < o.length → 0 < d.put.available

theorem peek_refused [Paging] (h : c.canRead = false) : c.peek = (none, c) := if_pos h

theorem readByte_refused [Paging] (h : c.canRead = false) : c.readByte = (none, c) := by
  rw [Mapped.readByte, peek_refused h]

theorem Looks.getPos_eq (h : Looks c d i o) : d.getPos = c.getPos := by
  obtain ⟨-, rfl⟩ | ⟨-, -, hat, -⟩ := h.window
  · rfl
  · exact hat.getPos_eq

theorem MakesRoom.putPos_eq (h : MakesRoom c d i o) : d.putPos = c.putPos := by
  obtain ⟨-, rfl⟩ | ⟨-, hat⟩ := h.window
  · rfl
  · exact hat.putPos_eq

namespace Framed

theorem limit_get_eq (h : c.Framed i o) (ha : c.get.available = 0) :
    c.offset + c.get.limit = c.getPos := by
  have hnext := h.next_get_le
  rw [h.available_get] at ha
  rw [getPos, h.limit_get]
  omega

theorem limit_put_eq (h : c.Framed i o) (ha : c.put.available = 0) :
    c.offset + c.put.limit = c.putPos := by
  have hnext := h.next_put_le
  rw [h.available_put] at ha
  rw [putPos, h.limit_put]
  omega

/-! ## Reading -/

theorem byteAt [Paging] (h : c.Framed i o) (himage : c.Depicts o image)
    (hlen : o.length ≤ image.length) (ha : 0 < c.get.available) :
    some (c.view.byteAt c.table c.get.next) = (slice image c.getPos o.length).head? := by
  have hroom := h.available_get_le
  have hmin : min (c.get.next + 1) c.view.length = c.get.next + 1 := by
    have := h.available_get
    omega
  have hin : c.getPos < image.length := by omega
  have hone : (slice image c.getPos (c.getPos + 1)).head? = some image[c.getPos] := by
    rw [head?_slice, if_pos (Nat.lt_succ_self _), List.getElem?_eq_getElem hin]
  rw [View.byteAt, h.range_eq himage, hmin, ← Nat.add_assoc,
    show c.offset + c.get.next = c.getPos from rfl, List.headD_eq_head?_getD, hone, head?_slice,
    if_pos (by omega), List.getElem?_eq_getElem hin]
  rfl

theorem peek_eq [Paging] (h : c.Framed i o) (hmode : c.mode.isReadable = true) :
    ∃ d, c.peek = (d.next?, d) ∧ Looks c d i o := by
  unfold Mapped.peek
  rw [if_neg (by simp [h.canRead hmode])]
  by_cases ha : 0 < c.get.available
  · rw [if_pos ha]
    refine ⟨c, ?_, h, .refl c, .inl ⟨.inl ha, rfl⟩, fun _ _ => ha⟩
    rw [next?, if_pos ha]
  have ha0 : c.get.available = 0 := Nat.eq_zero_of_not_pos ha
  rw [if_neg ha, h.limit_get_eq ha0, h.size_eq]
  by_cases hin : c.getPos < o.length
  · obtain ⟨r, d, hslide, hd, hkeeps, -, -, hbare, hcase⟩ := h.slide h.getPos_le 0
    rw [if_pos hin]
    simp only [hslide]
    obtain ⟨rfl, hroom, -⟩ | ⟨⟨e, rfl⟩, hget, -, hno⟩ := hcase
    · have hpage := pageSize_pos
      exact ⟨d, rfl, hd.toFramed, hkeeps, .inr ⟨ha0, hin, hd, hbare⟩, fun _ _ => by omega⟩
    · have hlatch := hd.latch (some e)
      refine ⟨d.latch (some e), ?_, hlatch.toFramed, hkeeps.trans (keeps_latch d _),
        .inr ⟨ha0, hin, hlatch, hbare⟩, fun hg => absurd hg hno⟩
      have hnone : ¬0 < (d.latch (some e)).get.available := by
        change ¬0 < d.get.available
        rw [hget, Region.available_empty]
        exact Nat.lt_irrefl 0
      rw [next?, if_neg hnone]
  · have hend : c.getPos = o.length := Nat.le_antisymm h.getPos_le (Nat.le_of_not_lt hin)
    rw [if_neg hin]
    refine ⟨c, ?_, h, .refl c, .inl ⟨.inr hend, rfl⟩, fun _ hlt => absurd hlt hin⟩
    rw [next?, if_neg ha]

theorem readByte_eq [Paging] (h : c.Framed i o) (hmode : c.mode.isReadable = true) :
    ∃ d, c.readByte = (d.next?, { d with get := d.get.bump 1 }) ∧ Looks c d i o := by
  obtain ⟨d, hpeek, hd⟩ := h.peek_eq hmode
  refine ⟨d, ?_, hd⟩
  rw [Mapped.readByte, hpeek]
  by_cases ha : 0 < d.get.available
  · rw [next?, if_pos ha]
  · rw [next?, if_neg ha, Region.bump_of_available (Nat.eq_zero_of_not_pos ha)]

end Framed

/-- The byte that comes next is shown from the window, or from another one behind it. -/
theorem Looks.next?_eq [Paging] (h : Looks c d i o) (himage : c.Depicts o image)
    (hlen : o.length ≤ image.length) (hcovered : o.length ≤ (c.table.file o).bytes.length)
    (hg : c.table.GrantsNext o) :
    d.next? = (slice (if 0 < c.get.available then image else (c.table.file o).bytes)
      c.getPos o.length).head? := by
  obtain ⟨ha | hend, rfl⟩ | ⟨ha, hin, hat, hbare⟩ := h.window
  · rw [next?, if_pos ha, if_pos ha]
    exact h.byteAt himage hlen ha
  · have ha : ¬0 < d.get.available := by
      have := h.available_get_le
      omega
    rw [next?, if_neg ha, head?_slice, if_neg (by omega)]
  · have hfile := h.keeps.table.file o
    have hbyte := h.byteAt (depicts_of_bare hbare) (hfile ▸ hcovered) (h.granted hg hin)
    rw [h.getPos_eq, hfile] at hbyte
    rw [next?, if_pos (h.granted hg hin), if_neg (by omega), hbyte]

/-! ## Writing -/

theorem Framed.writeByte_eq [Paging] (h : c.Framed i o) (hmode : c.mode.isWritable = true)
    (b : UInt8) :
    ∃ d, c.writeByte b = (if 0 < d.put.available then (true, d.store [b]) else (false, d)) ∧
      MakesRoom c d i o := by
  have hle := h.putPos_le
  unfold Mapped.writeByte
  rw [if_neg (by simp [h.canWrite hmode])]
  by_cases ha : 0 < c.put.available
  · rw [if_pos ha]
    refine ⟨c, ?_, h, .refl c, .inl ⟨ha, rfl⟩, fun _ _ => ha⟩
    rw [if_pos ha]
  have ha0 : c.put.available = 0 := Nat.eq_zero_of_not_pos ha
  have hsize : Mapped.size { c with offset := c.putPos } = o.length := h.size_eq
  rw [if_neg ha, h.limit_put_eq ha0]
  dsimp only
  rw [hsize]
  by_cases hend : o.length ≤ c.putPos
  · have hover : Over { c with offset := c.putPos } i o := ⟨h.holds, h.opened, hle⟩
    rw [if_pos hend, Nat.min_eq_left hle]
    refine ⟨_, ?_, hover.dropWindow.toFramed, keeps_dropWindow c _, .inr ⟨ha0, hover.dropWindow⟩,
      fun _ hlt => absurd hend (Nat.not_le_of_lt hlt)⟩
    exact (if_neg (Nat.lt_irrefl 0)).symm
  rw [if_neg hend]
  obtain ⟨r, d, hslide, hd, hkeeps, -, -, -, hcase⟩ := h.slide hle 0
  simp only [hslide]
  obtain ⟨rfl, -, hroom⟩ | ⟨⟨e, rfl⟩, -, hput, hno⟩ := hcase
  · have hpage := pageSize_pos
    have hpos : 0 < d.put.available := by omega
    refine ⟨d, ?_, hd.toFramed, hkeeps, .inr ⟨ha0, hd⟩, fun _ _ => hpos⟩
    rw [if_pos hpos]
    exact if_neg (Nat.ne_of_gt hpos)
  · have hlatch := hd.latch (some e)
    have hnone : ¬0 < (d.latch (some e)).put.available := by
      change ¬0 < d.put.available
      rw [hput, Region.available_empty]
      exact Nat.lt_irrefl 0
    refine ⟨d.latch (some e), ?_, hlatch.toFramed, hkeeps.trans (keeps_latch d _),
      .inr ⟨ha0, hlatch⟩, fun hg => absurd hg hno⟩
    rw [if_neg hnone]

/-! ## Single bytes of a shared file -/

/-- The next byte is the byte of the file at the get cursor, up to the end of the mapping. -/
theorem Framed.readByte_at [Paging] (h : c.Framed i o) (hmode : c.mode.isReadable = true)
    (hshared : o.mode ≠ .copyOnWrite) (hlen : o.length ≤ (c.table.file o).bytes.length)
    (hg : c.table.GrantsNext o) :
    (c.readByte.1 = none ↔ c.getPos = o.length) ∧
      ∀ b, c.readByte.1 = some b →
        (c.table.file o).bytes[c.getPos]? = some b ∧ c.readByte.2.getPos = c.getPos + 1 := by
  have hle := h.getPos_le
  obtain ⟨d, hread, hd⟩ := h.readByte_eq hmode
  have hbyte : d.next? =
      if c.getPos < o.length then (c.table.file o).bytes[c.getPos]? else none := by
    rw [hd.next?_eq (h.depicts_file hshared) hlen hlen hg, ite_self, head?_slice]
  rw [hread]
  dsimp only
  by_cases hin : c.getPos < o.length
  · have hsome : (c.table.file o).bytes[c.getPos]? ≠ none := by
      rw [List.getElem?_eq_getElem (by omega)]
      exact Option.some_ne_none _
    have hnext : (d.get.bump 1).next = d.get.next + 1 :=
      Region.next_bump_of_le (hd.granted hg hin)
    rw [if_pos hin] at hbyte
    rw [hbyte]
    refine ⟨⟨fun hn => absurd hn hsome, fun he => by omega⟩, fun b hb => ⟨hb, ?_⟩⟩
    rw [← hd.getPos_eq]
    simp only [getPos, hnext, Nat.add_assoc]
  · rw [if_neg hin] at hbyte
    rw [hbyte]
    refine ⟨⟨fun _ => by omega, fun _ => rfl⟩, fun b hb => ?_⟩
    cases hb

/-- A byte is stored at the put cursor, up to the end of the mapping, and changes nothing else. -/
theorem Framed.writeByte_at [Paging] (h : c.Framed i o) (hmode : c.mode.isWritable = true)
    (hshared : o.mode = .readWrite) (hlen : o.length ≤ (c.table.file o).bytes.length)
    (hg : c.table.GrantsNext o) (b : UInt8) :
    let r := c.writeByte b
    (r.1 = false ↔ c.putPos = o.length) ∧
      (r.1 = true → r.2.putPos = c.putPos + 1 ∧
        (r.2.table.file o).bytes = (c.table.file o).bytes.set c.putPos b) ∧
      (r.1 = false → r.2.table.disk = c.table.disk) ∧ c.table.Apart o r.2.table := by
  intro r
  have hle := h.putPos_le
  obtain ⟨d, hwrite, hd⟩ := h.writeByte_eq hmode b
  have hr : r = if 0 < d.put.available then (true, d.store [b]) else (false, d) := hwrite
  have hroom := hd.available_put_le
  rw [hd.putPos_eq] at hroom
  by_cases ha : 0 < d.put.available
  · obtain ⟨name, hname⟩ := hg.name
    have hone : [b].length ≤ d.put.available := ha
    have hpos : d.putPos ≤ (d.table.file o).bytes.length := by
      rw [hd.putPos_eq, hd.keeps.table.file]
      omega
    have hnext : (d.put.bump 1).next = d.put.next + 1 := Region.next_bump_of_le ha
    rw [if_pos ha, hd.store_eq hshared hone] at hr
    rw [hr]
    dsimp only
    refine ⟨⟨fun hf => absurd hf (by decide), fun he => by omega⟩, fun _ => ⟨?_, ?_⟩,
      fun hf => absurd hf (by decide), (hd.keeps.table.apart o).trans (d.table.apart_lay o _ _)⟩
    · rw [← hd.putPos_eq]
      simp only [putPos, List.length_singleton, hnext, Nat.add_assoc]
    · rw [MapTable.bytes_file_lay hname [b] hpos, hd.putPos_eq, hd.keeps.table.file,
        overwrite_singleton _ (by omega)]
  · have hend : c.putPos = o.length := by
      by_cases hin : c.putPos < o.length
      · exact absurd (hd.granted hg hin) ha
      · omega
    rw [if_neg ha] at hr
    rw [hr]
    dsimp only
    exact ⟨⟨fun _ => hend, fun _ => rfl⟩, fun hf => absurd hf (by decide),
      fun _ => hd.keeps.table.disk, hd.keeps.table.apart o⟩

end ByteChannel.Mapped
