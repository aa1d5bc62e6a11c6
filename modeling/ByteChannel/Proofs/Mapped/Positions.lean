import Mathlib
import ByteChannel.Proofs.Mapped.History

/-!
# Two positions over one window

The two cursors of a mapped channel have positions of their own, but one window between them. As
long as the side that is used finds what it needs in the window, the other side stays where it is.
When it has to ask for another window, or finds no room at the end of the mapping, the other side is
moved to its position. So it depends on where the windows come to lie what the other side reads or
writes next.
-/

namespace ByteChannel.Mapped

variable {c d : Mapped} {i : Nat} {o : Opening}

/-! ## Input -/

theorem Looks.putPos_eq (h : Looks c d i o) :
    d.putPos = if c.getSize = 0 ∧ c.getPos < o.length then c.getPos else c.putPos := by
  obtain ⟨hstay, rfl⟩ | ⟨ha, hin, hat, -⟩ := h.window
  · have hstay : ¬(d.getSize = 0 ∧ d.getPos < o.length) := by
      rw [getSize]
      omega
    rw [if_neg hstay]
  · rw [if_pos ⟨ha, hin⟩]
    exact hat.putPos_eq

namespace Framed

theorem peek_moves [Paging] (h : c.Framed i o) (hmode : c.mode.isReadable = true) :
    c.peek.2.getPos = c.getPos ∧ c.peek.2.putPos =
      if c.getSize = 0 ∧ c.getPos < o.length then c.getPos else c.putPos := by
  obtain ⟨d, hpeek, hd⟩ := h.peek_eq hmode
  rw [hpeek]
  exact ⟨hd.getPos_eq, hd.putPos_eq⟩

theorem readByte_moves [Paging] (h : c.Framed i o) (hmode : c.mode.isReadable = true) :
    c.readByte.2.getPos = c.getPos + c.readByte.1.toList.length ∧ c.readByte.2.putPos =
      if c.getSize = 0 ∧ c.getPos < o.length then c.getPos else c.putPos := by
  obtain ⟨d, hread, hd⟩ := h.readByte_eq hmode
  rw [hread]
  refine ⟨?_, hd.putPos_eq⟩
  rw [← hd.getPos_eq, next?]
  by_cases ha : 0 < d.get.available
  · have hnext : (d.get.bump 1).next = d.get.next + 1 := Region.next_bump_of_le ha
    rw [if_pos ha]
    simp only [getPos, hnext, Option.toList_some, List.length_singleton, Nat.add_assoc]
  · rw [if_neg ha, Region.bump_of_available (Nat.eq_zero_of_not_pos ha)]
    rfl

theorem reserveGet_moves [Paging] (h : c.Framed i o) (n : Nat) :
    (c.reserveGet n).2.getPos = c.getPos ∧
      (c.reserveGet n).2.putPos = if c.getSize < n then c.getPos else c.putPos := by
  obtain ⟨r, d, hreserve, -, -, hpos, -⟩ := h.reserveGet n
  rw [hreserve]
  exact hpos

end Framed

/-! ## Output -/

theorem MakesRoom.getPos_eq (h : MakesRoom c d i o) :
    d.getPos = if c.put.available = 0 then c.putPos else c.getPos := by
  obtain ⟨ha, rfl⟩ | ⟨ha, hat⟩ := h.window
  · rw [if_neg (Nat.ne_of_gt ha)]
  · rw [if_pos ha]
    exact hat.getPos_eq

namespace Framed

theorem reservePut_moves [Paging] (h : c.Framed i o) (hmode : c.mode.isWritable = true) (n : Nat) :
    (c.reservePut n).2.putPos = c.putPos ∧
      (c.reservePut n).2.getPos = if c.put.available < n then c.putPos else c.getPos := by
  obtain ⟨r, d, hreserve, -, -, hpos, -⟩ := h.reservePut hmode n
  rw [hreserve]
  exact hpos

theorem writeByte_moves [Paging] (h : c.Framed i o) (hmode : c.mode.isWritable = true)
    (hwrites : o.mode ≠ .readOnly) (b : UInt8) :
    (c.writeByte b).2.putPos = c.putPos + (c.writeByte b).1.toNat ∧
      (c.writeByte b).2.getPos = if c.put.available = 0 then c.putPos else c.getPos := by
  obtain ⟨d, hwrite, hd⟩ := h.writeByte_eq hmode b
  rw [hwrite, ← hd.getPos_eq, ← hd.putPos_eq]
  by_cases ha : 0 < d.put.available
  · have hone : [b].length ≤ d.put.available := ha
    have hnext : (d.put.bump 1).next = d.put.next + 1 := Region.next_bump_of_le ha
    obtain ⟨v, e, hstore, -, rfl⟩ := hd.store_moves hwrites hone
    rw [if_pos ha, hstore]
    refine ⟨?_, rfl⟩
    simp only [putPos, List.length_singleton, hnext, Bool.toNat_true, Nat.add_assoc]
  · rw [if_neg ha]
    exact ⟨rfl, rfl⟩

end Framed

/-- Whatever was done with a channel for input and output before: what is called on one side moves
that side by the byte that was read or written, if any, and leaves the other side where it is,
unless the side that is called has too little left in the window. Then the other side is moved to
its position. -/
theorem other_side_moves_with_window [Paging] {c c' : Mapped} {entry : Entry} {o : Opening}
    (hentry : c.enter entry = (.ok (), c')) (hreads : entry.mode.isReadable = true)
    (hwrites : entry.mode.isWritable = true) (ho : c'.mapping.opening? c'.table = some o)
    (hword : o.length ≤ maxWord) (acts : List Act) :
    let d := c'.actAll acts
    let behind := d.getSize = 0 ∧ d.getPos < o.length
    (d.peek.2.getPos = d.getPos ∧
        d.peek.2.putPos = if behind then d.getPos else d.putPos) ∧
      (d.readByte.2.getPos = d.getPos + d.readByte.1.toList.length ∧
        d.readByte.2.putPos = if behind then d.getPos else d.putPos) ∧
      (∀ n, (d.reserveGet n).2.getPos = d.getPos ∧
        (d.reserveGet n).2.putPos = if d.getSize < n then d.getPos else d.putPos) ∧
      (∀ b, (d.writeByte b).2.putPos = d.putPos + (d.writeByte b).1.toNat ∧
        (d.writeByte b).2.getPos = if d.put.available = 0 then d.putPos else d.getPos) ∧
      ∀ n, (d.reservePut n).2.putPos = d.putPos ∧
        (d.reservePut n).2.getPos = if d.put.available < n then d.putPos else d.getPos := by
  intro d behind
  obtain ⟨i, hstart⟩ := enter_live hentry ho
  have h : Leaves entry.mode c' d i o.plain := hstart.actAll hword acts
  have hr : d.mode.isReadable = true := h.mode_eq.symm ▸ hreads
  have hw : d.mode.isWritable = true := h.mode_eq.symm ▸ hwrites
  exact ⟨h.peek_moves hr, h.readByte_moves hr, h.reserveGet_moves,
    h.writeByte_moves hw (h.writes hwrites), h.reservePut_moves hw⟩

/-- Within the window a byte read leaves the put cursor behind. More input reserved than the window
has brings it along. -/
theorem other_side_moves_with_window_reserved :
    let table : MapTable := { disk := ⟨[("f", .ofBytes [97, 98, 99])]⟩ }
    let entry : Entry := .path "f" { read := true, write := true } false
    ∃ c', enter { table := table } entry = (.ok (), c') ∧
      let d := c'.actAll [.op .readByte]
      d.readByte.2.putPos = 0 ∧ (d.reserveGet 2).2.putPos = 0 ∧ (d.reserveGet 3).2.putPos = 1 := by
  intro table entry
  let o : Opening :=
    { name := some "f"
      path := some "f"
      length := 3
      mode := .readWrite
      readable := true
      writable := true }
  have hentry : enter { table := table } entry = (.ok (), (enter { table := table } entry).2) := by
    cbv
  obtain ⟨-, ⟨-, hread⟩, hreserve, -, -⟩ := other_side_moves_with_window (o := o) hentry rfl rfl
    (by cbv) (by decide) [.op .readByte]
  exact ⟨_, hentry, hread.trans (by cbv), (hreserve 2).2.trans (by cbv),
    (hreserve 3).2.trans (by cbv)⟩

/-- Reserving input changes where the next byte is written: over the second byte of the file in
place of the first. -/
theorem reserved_input_moves_output :
    let table : MapTable := { disk := ⟨[("f", .ofBytes [97, 98])]⟩ }
    let entry : Entry := .path "f" { read := true, write := true, binary := true } false
    ∃ c', enter { table := table } entry = (.ok (), c') ∧
      let c₁ := c'.after .readByte
      let c₂ := c₁.after (.reserveGet 5)
      (c₁.getPos = 1 ∧ c₁.putPos = 0) ∧ (c₂.getPos = 1 ∧ c₂.putPos = 1) ∧
        (c₁.after (.writeByte 88)).table.disk.bytes "f" = [88, 98] ∧
        (c₂.after (.writeByte 88)).table.disk.bytes "f" = [97, 88] := by
  intro table entry
  exact ⟨(enter { table := table } entry).2, by cbv, ⟨by cbv, by cbv⟩, ⟨by cbv, by cbv⟩, by cbv,
    by cbv⟩

end ByteChannel.Mapped
