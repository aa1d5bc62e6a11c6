import Mathlib
import ByteChannel.Proofs.Mapped.Holding
import ByteChannel.Proofs.Mapped.Shown

/-!
# Where a seek leads

A seek puts both cursors at its target and changes no file, wherever the window lies. Input and
output go on from there, whether the window that is there is used or another one is asked for.
-/

namespace ByteChannel.Mapped

section

variable [Paging] {c d : Mapped} {i : Nat} {o : Opening} {m : OpenMode}
variable {image bs : Bytes} {pos : Nat}

/-- Input goes on at a position, with what the window shows and behind it with the file. It falls
short only of what a refused window would have shown. -/
structure ReadsAt (c : Mapped) (o : Opening) (image : Bytes) (pos : Nat) : Prop where
  read : ∀ n, ∃ r d, c.read n = (slice image pos (pos + min n c.getSize) ++
      slice (c.table.file o).bytes (pos + min n c.getSize) (pos + r), d) ∧
    min n c.getSize ≤ r ∧ r ≤ min n (o.length - pos) ∧ d.getPos = pos + r ∧
    (c.table.Grants o → r = min n (o.length - pos))
  readByte : c.readByte.1 =
      (slice (if 0 < c.getSize then image else (c.table.file o).bytes) pos o.length).head? ∨
    c.readByte.1 = none ∧ ¬c.table.GrantsNext o

/-- Bytes were stored at a position: they are shown there, and have changed the file if the mapping
shares its changes. -/
structure StoresAt (c d : Mapped) (o : Opening) (pos : Nat) (bs : Bytes) : Prop where
  putPos_eq : d.putPos = pos + bs.length
  shown : bs <:+ d.putData
  shared : o.mode = .readWrite → (d.table.file o).bytes = overwrite (c.table.file o).bytes pos bs
  unshared : o.mode ≠ .readWrite → d.table.disk = c.table.disk

/-- Output goes on at a position, up to the end of the mapping unless a window is refused. -/
structure WritesAt (c : Mapped) (o : Opening) (pos : Nat) : Prop where
  write : ∀ src, ∃ k d, c.write src = (k, d) ∧ k ≤ min src.length (o.length - pos) ∧
    StoresAt c d o pos (src.take k) ∧
    (c.table.GrantsNext o → k = min src.length (o.length - pos))
  writeByte : ∀ b, ∃ ok d, c.writeByte b = (ok, d) ∧ StoresAt c d o pos (if ok then [b] else []) ∧
    (c.table.GrantsNext o → (ok = true ↔ pos < o.length))

/-! What holds of an opening holds of it whoever else has it. -/

theorem ReadsAt.of_plain (h : ReadsAt c o.plain image pos) : ReadsAt c o image pos where
  read n := by
    obtain ⟨r, d, hread, hle, hge, hpos, hall⟩ := h.read n
    exact ⟨r, d, hread, hle, hge, hpos, fun hg => hall ⟨hg.allows, hg.never_refuses⟩⟩
  readByte := h.readByte.imp_right fun hnone =>
    ⟨hnone.1, fun hg => hnone.2 ⟨hg.allows, hg.accepts⟩⟩

theorem StoresAt.of_plain (h : StoresAt c d o.plain pos bs) : StoresAt c d o pos bs :=
  ⟨h.putPos_eq, h.shown, h.shared, h.unshared⟩

theorem WritesAt.of_plain (h : WritesAt c o.plain pos) : WritesAt c o pos where
  write src := by
    obtain ⟨k, d, hwrite, hle, hstored, hall⟩ := h.write src
    exact ⟨k, d, hwrite, hle, hstored.of_plain, fun hg => hall ⟨hg.allows, hg.accepts⟩⟩
  writeByte b := by
    obtain ⟨ok, d, hwrite, hstored, hall⟩ := h.writeByte b
    exact ⟨ok, d, hwrite, hstored.of_plain, fun hg => hall ⟨hg.allows, hg.accepts⟩⟩

theorem Looks.next?_eq_or (h : Looks c d i o) (himage : c.Depicts o image)
    (hlen : o.length ≤ image.length) (hcovered : o.length ≤ (c.table.file o).bytes.length) :
    d.next? = (slice (if 0 < c.get.available then image else (c.table.file o).bytes)
      c.getPos o.length).head? ∨ d.next? = none ∧ ¬c.table.GrantsNext o := by
  by_cases hg : c.table.GrantsNext o
  · exact .inl (h.next?_eq himage hlen hcovered hg)
  obtain ⟨ha | hend, rfl⟩ | ⟨ha, -, -, hbare⟩ := h.window
  · rw [next?, if_pos ha, if_pos ha]
    exact .inl (h.byteAt himage hlen ha)
  · have ha : ¬0 < d.get.available := by
      have := h.available_get_le
      omega
    exact .inr ⟨if_neg ha, hg⟩
  · by_cases hd : 0 < d.get.available
    · have hfile := h.keeps.table.file o
      have hbyte := h.byteAt (depicts_of_bare hbare) (hfile ▸ hcovered) hd
      rw [h.getPos_eq, hfile] at hbyte
      rw [next?, if_pos hd, if_neg (by omega)]
      exact .inl hbyte
    · exact .inr ⟨if_neg hd, hg⟩

namespace Showing

theorem readsAt (h : Showing m c i o image) (hr : m.isReadable = true) :
    ReadsAt c o image c.getPos := by
  have hmode : c.mode.isReadable = true := h.mode_eq.symm ▸ hr
  constructor
  · intro n
    obtain ⟨r, d, hread, hle, hge, hd, -, hgranted⟩ := h.read_depicted hmode h.depicts rfl
    exact ⟨r, d, hread, hle, hge, hd.getPos_eq, fun hg => (hgranted hg.next).1⟩
  · obtain ⟨d, hread, hd⟩ := h.readByte_eq hmode
    rw [hread]
    exact hd.next?_eq_or h.depicts h.length_le h.covered

theorem storesAt (h : Showing m c i o image) (hw : m.isWritable = true) (k : Keeps c d)
    (hd : d.Framed i o) (hput : d.putPos = c.putPos) (hbs : bs.length ≤ d.put.available) :
    StoresAt c (d.store bs) o c.putPos bs := by
  have hdrawn := h.keeps k hd
  have hlays := hdrawn.lays_store hw hbs
  obtain ⟨hshared, hunshared⟩ := hlays.on_disk hdrawn.covered
  rw [hput, k.table.file] at hshared
  refine ⟨hput ▸ hdrawn.putPos_store hw hbs, ?_, hshared, fun hno => ?_⟩
  · rw [hdrawn.putData_store hw hbs]
    exact List.suffix_append _ _
  · exact (hunshared hno).trans k.table.disk

theorem writesAt (h : Showing m c i o image) (hw : m.isWritable = true) :
    WritesAt c o c.putPos := by
  have hmode : c.mode.isWritable = true := h.mode_eq.symm ▸ hw
  have hle := h.putPos_le
  constructor
  · intro src
    obtain ⟨k, d, hwrite, hd, hkeeps, hput, hlen, hroom, hgranted⟩ := h.write_eq hmode src
    have hstored := h.storesAt hw hkeeps hd hput (hlen.symm ▸ hroom)
    have hend := hd.available_put_le
    have hall := List.length_take_le' k src
    exact ⟨k, _, hwrite, by omega,
      ⟨hstored.putPos_eq, hstored.shown, hstored.shared, hstored.unshared⟩,
      fun hg => (hgranted hg).1⟩
  · intro b
    obtain ⟨d, hwrite, hd⟩ := h.writeByte_eq hmode b
    have hend := hd.available_put_le
    rw [hd.putPos_eq] at hend
    by_cases ha : 0 < d.put.available
    · have hone : [b].length ≤ d.put.available := ha
      rw [if_pos ha] at hwrite
      exact ⟨true, _, hwrite, h.storesAt hw hd.keeps hd.toFramed hd.putPos_eq hone,
        fun _ => ⟨fun _ => by omega, fun _ => rfl⟩⟩
    · have hnone : ([] : Bytes).length ≤ d.put.available := Nat.zero_le _
      rw [if_neg ha] at hwrite
      exact ⟨false, _, hwrite, h.storesAt hw hd.keeps hd.toFramed hd.putPos_eq hnone,
        fun hg => ⟨fun hf => absurd hf Bool.false_ne_true,
          fun hin => absurd (hd.granted hg hin) ha⟩⟩

end Showing

/-- Whatever was called before, a seek answers its target in exact integers, clamped to the mapping,
counted from the side that is sought. Both cursors are there then, no file has changed, and input
and output go on from there. -/
theorem seek_leads_both_sides {c c' : Mapped} {entry : Entry} {o : Opening}
    (hentry : c.enter entry = (.ok (), c')) (ho : c'.mapping.opening? c'.table = some o)
    (hlen : o.length ≤ (c'.table.file o).bytes.length) (hword : o.length ≤ maxWord)
    (calls : List Call) (origin : Origin) (side : Side) :
    let d := c'.performAll calls
    let here := if side.includesGet then d.getPos else d.putPos
    let shown := c'.shownAfterAll o (c'.table.file o).bytes calls
    ∃ t e, d.seek origin side = (.ok t, e) ∧
      (t : Int) = max 0 (min (origin.target here o.length) o.length) ∧
      e.getPos = t ∧ e.putPos = t ∧ e.table.disk = d.table.disk ∧
      (o.mode ≠ .copyOnWrite → shown = (e.table.file o).bytes) ∧
      (entry.mode.isReadable = true → ReadsAt e o shown t) ∧
      (entry.mode.isWritable = true → WritesAt e o t) := by
  intro d here shown
  obtain ⟨i, h⟩ := enter_showing hentry ho hlen hword calls
  have hhere : here ≤ o.length := by
    simp only [here]
    split
    · exact h.getPos_le
    · exact h.putPos_le
  obtain ⟨e, hseek, hat, hkeeps, -⟩ := h.toFramed.seek hword origin side
  have hasked : e.table.windowsAsked = d.table.windowsAsked := by
    have hasked := windowsAsked_seek d origin side
    rwa [hseek] at hasked
  have he : Showing entry.mode e i o.plain shown := by
    have he := h.keeps hkeeps hat.toFramed
    rwa [carried, if_pos hasked] at he
  have hreads := he.readsAt
  have hwrites := he.writesAt
  rw [hat.getPos_eq] at hreads
  rw [hat.putPos_eq] at hwrites
  exact ⟨_, e, hseek, origin.clampedTarget_eq hhere hword, hat.getPos_eq, hat.putPos_eq,
    hkeeps.table.disk, he.agrees, fun hr => (hreads hr).of_plain, fun hw => (hwrites hw).of_plain⟩

end

/-- The cursors are one byte apart and the put cursor leads: two bytes on from there input finds the
last byte, and output has room for one. -/
theorem seek_leads_both_sides_drifted :
    let table : MapTable := { disk := ⟨[("f", .ofBytes [97, 98, 99])]⟩ }
    let entry : Entry := .path "f" { read := true, write := true } false
    ∃ c', enter { table := table } entry = (.ok (), c') ∧
      let d := c'.performAll [.act (.op .readByte)]
      let e := (d.seek (.current 2) .put).2
      (d.getPos = 1 ∧ d.putPos = 0) ∧ (e.getPos = 2 ∧ e.putPos = 2) ∧
        (∃ r f, e.read 5 = (r, f) ∧ r = [99]) ∧
        ∃ k f, e.write [88, 89] = (k, f) ∧ k = 1 ∧ f.table.disk.bytes "f" = [97, 98, 88] := by
  intro table entry
  let o : Opening :=
    { name := some "f"
      path := some "f"
      length := 3
      mode := .readWrite
      readable := true
      writable := true }
  have hentry : enter { table := table } entry = (.ok (), (enter { table := table } entry).2) := by
    cbv
  obtain ⟨t, e, hseek, ht, hget, hput, -, -, hreads, hwrites⟩ := seek_leads_both_sides (o := o)
    hentry (by cbv) (by cbv) (by decide) [.act (.op .readByte)] (.current 2) .put
  obtain rfl : t = 2 := by
    refine Int.ofNat.inj (ht.trans ?_)
    cbv
  refine ⟨_, hentry, ?_⟩
  intro d e₂
  obtain rfl : e₂ = e := congrArg Prod.snd hseek
  have hgrants : e₂.table.Grants o := ⟨rfl, fun _ => by simp only [e₂, d]; cbv⟩
  obtain ⟨r, f, hread, -, -, -, hr⟩ := (hreads rfl).read 5
  obtain ⟨k, f', hwrite, -, hstored, hk⟩ := (hwrites rfl).write [88, 89]
  obtain rfl : r = 1 := hr hgrants
  obtain rfl : k = 1 := hk hgrants.next
  refine ⟨⟨by simp only [d]; cbv, by simp only [d]; cbv⟩, ⟨hget, hput⟩, ⟨_, f, hread, ?_⟩, 1, f',
    hwrite, rfl, (hstored.shared rfl).trans ?_⟩
  · simp only [e₂, d]
    cbv
  · simp only [e₂, d]
    cbv

end ByteChannel.Mapped
