import Mathlib
import ByteChannel.Proofs.Mapped.Shown

/-!
# What a reservation makes ready

Where a window is granted, reserved input is at hand as far as the mapping goes, and reserved output
has room as far as the mapping goes, whatever was called before. Reserving moves neither the
position of its side nor a byte of a file. What is at hand then is what the window shows: a private
one that was there already shows what was stored in it.
-/

namespace ByteChannel.Mapped

variable {c d : Mapped} {i n : Nat} {o : Opening} {m : OpenMode} {image src : Bytes}

namespace Showing

variable [Paging]

theorem length_getData (h : Showing m c i o image) : c.getData.length = c.getSize := by
  have hroom := h.available_get_le
  have hlen := h.length_le
  rw [h.getData_eq h.depicts, length_slice, getSize]
  omega

theorem reserveGet (h : Showing m c i o image) (hg : c.table.GrantsNext o) (n : Nat) :
    ∃ r d, c.reserveGet n = (.ok r, d) ∧ min n (o.length - c.getPos) ≤ r ∧
      r ≤ o.length - c.getPos ∧ d.getPos = c.getPos ∧ d.getData.length = r ∧
      d.getData = slice (if c.getSize < n then (c.table.file o).bytes else image) c.getPos
        (c.getPos + r) := by
  obtain ⟨r, d, hreserve, hd, hkeeps, ⟨hpos, -⟩, -, hbare, hcase⟩ := h.toFramed.reserveGet n
  obtain ⟨rfl, hle⟩ | ⟨-, hno⟩ := hcase
  · have hroom := hd.available_get_le
    have hlen := (h.keeps hkeeps hd).length_getData
    rw [hpos] at hroom
    refine ⟨_, d, hreserve, hle, by omega, hpos, hlen, ?_⟩
    by_cases hn : c.getSize < n
    · rw [if_pos hn, hd.getData_eq (depicts_of_bare (hbare hn)), hkeeps.table.file, hpos]
      rfl
    · have hstay : c.reserveGet n = (.ok c.get.available, c) := by
        rw [Mapped.reserveGet, if_neg (by simp [h.isOpen])]
        exact if_neg hn
      obtain rfl : c = d := congrArg Prod.snd (hstay.symm.trans hreserve)
      rw [if_neg hn, h.getData_eq h.depicts]
      rfl
  · exact absurd hg hno

theorem write_in_room (h : Showing m c i o image) (hw : m.isWritable = true)
    (hfits : src.length ≤ c.put.available) :
    ∃ d, c.write src = (src.length, d) ∧ d.putPos = c.putPos + src.length ∧
      d.putData = c.putData ++ src ∧ (d.offset = c.offset ∧ d.view.length = c.view.length) ∧
      d.table = c.table.lay o c.putPos (o.passes src) := by
  have hcan : ¬c.canWrite = false := by simp [h.canWrite (h.mode_eq.symm ▸ hw)]
  have hstored := h.store hw hfits
  obtain ⟨v, d, hd, -, heq⟩ := h.store_moves (h.writes hw) hfits
  have hlength : (c.store src).view.length = c.view.length := by
    rw [← hstored.limit_put, ← h.limit_put, hd, heq]
    rfl
  refine ⟨(c.store src).setGet (c.store src).put.next, ?_, h.putPos_store hw hfits,
    h.putData_store hw hfits, ⟨?_, hlength⟩, ?_⟩
  · rw [Mapped.write, if_neg hcan, if_pos hfits]
  · rw [hd, heq]
    rfl
  · rw [hd, heq]
    rfl

theorem reservePut (h : Showing m c i o image) (hw : m.isWritable = true)
    (hg : c.table.GrantsNext o) (n : Nat) :
    ∃ r d, c.reservePut n = (.ok r, d) ∧ min n (o.length - c.putPos) ≤ r ∧
      r ≤ o.length - c.putPos ∧ d.putPos = c.putPos ∧
      ∀ src : Bytes, src.length ≤ r → ∃ e, d.write src = (src.length, e) ∧
        e.putPos = c.putPos + src.length ∧ e.putData = d.putData ++ src ∧
        (e.offset = d.offset ∧ e.view.length = d.view.length ∧
          e.table.windowsAsked = d.table.windowsAsked) ∧ Lays c e o src := by
  obtain ⟨r, d, hreserve, hd, hkeeps, ⟨hpos, -⟩, -, hcase⟩ :=
    h.toFramed.reservePut (h.mode_eq.symm ▸ hw) n
  obtain ⟨rfl, hle⟩ | ⟨-, -, hno⟩ := hcase
  · have hroom := hd.available_put_le
    have hend := h.putPos_le
    rw [hpos] at hroom
    refine ⟨_, d, hreserve, hle, by omega, hpos, fun src hfits => ?_⟩
    obtain ⟨e, hwrite, hput, hdata, ⟨hoffset, hlength⟩, htable⟩ :=
      (h.keeps hkeeps hd).write_in_room hw hfits
    rw [hpos] at hput htable
    refine ⟨e, hwrite, hput, hdata, ⟨hoffset, hlength, ?_⟩, ?_, by omega⟩
    · rw [htable]
      exact MapTable.windowsAsked_lay _ _ _ _
    · rw [htable]
      exact hkeeps.table.lay o _ _
  · exact absurd hg hno

end Showing

/-- Reserving changes no file, whether its window is granted or refused. Where it is granted the
answer is all that was asked for or all there is up to the end of the mapping, or more. So many
bytes are at hand from the get cursor on: those of the file, but those that a private window shows
if there were enough of them before. So many bytes fit from the put cursor on, and are stored whole
without another window. -/
theorem reserved_whole [Paging] {c c' : Mapped} {entry : Entry} {o : Opening}
    (hentry : c.enter entry = (.ok (), c')) (ho : c'.mapping.opening? c'.table = some o)
    (hlen : o.length ≤ (c'.table.file o).bytes.length) (hword : o.length ≤ maxWord)
    (calls : List Call) (n : Nat) :
    let d := c'.performAll calls
    let file := (d.table.file o).bytes
    let shown := c'.shownAfterAll o (c'.table.file o).bytes calls
    ((d.reserveGet n).2.table.disk = d.table.disk ∧
        (d.reservePut n).2.table.disk = d.table.disk) ∧
      (o.mode ≠ .copyOnWrite → shown = file) ∧
      (d.table.GrantsNext o → ∃ r e, d.reserveGet n = (.ok r, e) ∧
        min n (o.length - d.getPos) ≤ r ∧ r ≤ o.length - d.getPos ∧ e.getPos = d.getPos ∧
        e.getData.length = r ∧
        e.getData = slice (if d.getSize < n then file else shown) d.getPos (d.getPos + r)) ∧
      (d.table.GrantsNext o → entry.mode.isWritable = true → ∃ r e, d.reservePut n = (.ok r, e) ∧
        min n (o.length - d.putPos) ≤ r ∧ r ≤ o.length - d.putPos ∧ e.putPos = d.putPos ∧
        ∀ src : Bytes, src.length ≤ r → ∃ e', e.write src = (src.length, e') ∧
          e'.putPos = d.putPos + src.length ∧ e'.putData = e.putData ++ src ∧
          (e'.offset = e.offset ∧ e'.view.length = e.view.length ∧
            e'.table.windowsAsked = e.table.windowsAsked) ∧
          (o.mode = .readWrite → (e'.table.file o).bytes = overwrite file d.putPos src) ∧
          (o.mode ≠ .readWrite → e'.table.disk = d.table.disk)) := by
  intro d file shown
  obtain ⟨i, h⟩ := enter_showing hentry ho hlen hword calls
  refine ⟨⟨(h.keeps_reserveGet n).1.table.disk, (h.keeps_reservePut n).1.table.disk⟩, h.agrees,
    fun hg => h.reserveGet ⟨hg.allows, hg.accepts⟩ n, fun hg hw => ?_⟩
  obtain ⟨r, e, hreserve, hle, hge, hput, hwrites⟩ := h.reservePut hw ⟨hg.allows, hg.accepts⟩ n
  refine ⟨r, e, hreserve, hle, hge, hput, fun src hsrc => ?_⟩
  obtain ⟨e', hwrite, hput', hdata, hwindow, hlays⟩ := hwrites src hsrc
  exact ⟨e', hwrite, hput', hdata, hwindow, hlays.on_disk h.covered⟩

/-- With the cursors apart and the window partly used: more input than there is, and room for two
bytes. -/
theorem reserved_whole_drifted :
    let table : MapTable := { disk := ⟨[("f", .ofBytes [97, 98, 99])]⟩ }
    let entry : Entry := .path "f" { read := true, write := true } false
    ∃ c', enter { table := table } entry = (.ok (), c') ∧
      let d := c'.performAll [.act (.op .readByte)]
      (∃ r e, d.reserveGet 5 = (.ok r, e) ∧ r = 2 ∧ e.getData = [98, 99]) ∧
        ∃ r e, d.reservePut 1 = (.ok r, e) ∧ e.putPos = 0 ∧
          ∃ e', e.write [88] = (1, e') ∧ e'.putPos = 1 ∧
            e'.table.disk.bytes "f" = [88, 98, 99] := by
  intro table entry
  let o : Opening :=
    { name := some "f"
      path := some "f"
      length := 3
      mode := .readWrite
      readable := true
      writable := true }
  have hentry : enter { table := table } entry = (.ok (), (enter { table := table } entry).2) := by
    cbv
  let d := (enter { table := table } entry).2.performAll [.act (.op .readByte)]
  have hgrants : d.table.GrantsNext o := ⟨rfl, by simp only [d]; cbv⟩
  have hget : d.getPos = 1 := by simp only [d]; cbv
  have hput : d.putPos = 0 := by simp only [d]; cbv
  have h (n : Nat) := reserved_whole (o := o) hentry (by cbv) (by cbv) (by decide)
    [.act (.op .readByte)] n
  obtain ⟨r, e, hreserve, hle, hge, -, -, hdata⟩ := (h 5).2.2.1 hgrants
  have hr : r = 2 := by
    have hge : r ≤ 3 - d.getPos := hge
    have hle : min 5 (3 - d.getPos) ≤ r := hle
    omega
  obtain ⟨room, f, hreserve', hle', -, hput', hwrites⟩ := (h 1).2.2.2 hgrants rfl
  have hone : [(88 : UInt8)].length ≤ room := by
    have hle' : min 1 (3 - d.putPos) ≤ room := hle'
    have : [(88 : UInt8)].length = 1 := rfl
    omega
  obtain ⟨e', hwrite, hput'', -, -, hfile, -⟩ := hwrites [88] hone
  subst hr
  exact ⟨_, hentry, ⟨_, e, hreserve, rfl, hdata.trans (by cbv)⟩, _, f, hreserve', hput'.trans hput,
    e', hwrite, hput''.trans (by cbv), (hfile rfl).trans (by cbv)⟩

/-- On a private channel the bytes at hand are not those of the file once some were stored. -/
theorem reserved_private_shows_stored :
    let table : MapTable := { disk := ⟨[("f", .ofBytes [97])]⟩ }
    let entry : Entry := .path "f" { read := true, write := true, binary := true } true
    ∃ c', enter { table := table } entry = (.ok (), c') ∧
      let d := c'.afterAll [.write [88], .seek (.start 0) .both]
      let e := d.after (.reserveGet 1)
      e.getPos = 0 ∧ e.getData = [88] ∧ slice (e.table.disk.bytes "f") 0 1 = [97] := by
  intro table entry
  exact ⟨(enter { table := table } entry).2, by cbv, by cbv, by cbv, by cbv⟩

end ByteChannel.Mapped
