import Mathlib
import ByteChannel.Proofs.Mapped.Shown

/-!
# What a private channel shows

A private channel stores in copies of pages that belong to its window. While the window stays it
shows what was stored, over the bytes of the file. Another window starts from the file again, also
where it covers the same place, so that stored bytes are lost with the window they were stored in.
The file itself never changes.
-/

namespace ByteChannel.Mapped

section

variable [Paging]

def imageAfter (c : Mapped) (file image : Bytes) (op : Op) : Bytes :=
  overwrite (carried c (c.after op) file image) c.putPos (c.stored op)

def imageAfterAll (c : Mapped) (file image : Bytes) : List Op → Bytes
  | [] => image
  | op :: ops => (c.after op).imageAfterAll file (c.imageAfter file image op) ops

variable {c₀ c : Mapped} {i : Nat} {o : Opening} {image : Bytes}

/-- A channel over a private mapping that has come from `c₀` and whose window shows `image`. -/
structure Private (c₀ c : Mapped) (i : Nat) (o : Opening) (image : Bytes) : Prop
    extends Framed c i o where
  mode_eq : c.mode = c₀.mode
  like : c₀.table.Like c.table
  writable : c₀.mode.isWritable = true
  copying : o.mode = .copyOnWrite
  grants : c₀.table.Grants o
  length_eq : image.length = (c₀.table.file o).bytes.length
  covered : o.length ≤ (c₀.table.file o).bytes.length
  depicts : c.Depicts o image

namespace Private

theorem readByte (h : c₀.Private c i o image) (hmode : c.mode.isReadable = true) :
    let shown := if 0 < c.getSize then image else (c₀.table.file o).bytes
    ∃ d, c.readByte = ((slice shown c.getPos o.length).head?, d) ∧ Keeps c d ∧ d.Framed i o := by
  intro shown
  obtain ⟨d, hread, hd⟩ := h.toFramed.readByte_eq hmode
  have hfile := h.like.file o
  have hbyte := hd.next?_eq h.depicts (h.length_eq.symm ▸ h.covered) (hfile.symm ▸ h.covered)
    (h.like.grants h.grants).next
  rw [hfile] at hbyte
  rw [hbyte] at hread
  exact ⟨_, hread, hd.keeps.trans (.of_eq rfl rfl rfl rfl), hd.bumpGet 1⟩

theorem showing (h : c₀.Private c i o image) : Showing c₀.mode c i o image where
  toFramed := h.toFramed
  mode_eq := h.mode_eq
  writes _ := by
    rw [h.copying]
    decide
  length_eq := by rw [h.like.file, h.length_eq]
  covered := by
    rw [h.like.file]
    exact h.covered
  depicts := h.depicts
  agrees hshared := absurd h.copying hshared

theorem after (h : c₀.Private c i o image) (hword : o.length ≤ maxWord) (op : Op) :
    c₀.Private (c.after op) i o (c.imageAfter (c₀.table.file o).bytes image op) := by
  have hfile := h.like.file o
  have hshows := h.showing.perform hword (.act (.op op))
  have hlength := hshows.length_eq
  have hlays := h.showing.toLive.lays_perform hword (.act (.op op))
  have hlike : c.table.Like (c.after op).table := by
    have hshared : ¬o.mode = .readWrite := by
      rw [h.copying]
      decide
    have hlike := hlays.like
    rwa [Opening.passes, if_neg hshared, MapTable.lay_nil, perform_act] at hlike
  rw [perform_act, shownAfter, perform_act, hfile] at hshows
  rw [perform_act, shownAfter, perform_act, hfile, act, hlike.file, hfile] at hlength
  exact
    { hshows with
      like := h.like.trans hlike
      writable := h.writable
      copying := h.copying
      grants := h.grants
      length_eq := hlength
      covered := h.covered }

theorem afterAll (h : c₀.Private c i o image) (hword : o.length ≤ maxWord) (ops : List Op) :
    c₀.Private (c.afterAll ops) i o (c.imageAfterAll (c₀.table.file o).bytes image ops) := by
  induction ops generalizing c image with
  | nil => exact h
  | cons op ops ih => exact ih (h.after hword op)

end Private

/-- Whatever was called on a private channel, the disk is as it was. The bytes at hand are what was
last stored at their places since their window was asked for, or else the bytes of the file. A read
takes these and goes on behind the window with the bytes of the file. -/
theorem private_shows_window {c c' : Mapped} {entry : Entry} {o : Opening}
    (hentry : c.enter entry = (.ok (), c')) (hwrites : entry.mode.isWritable = true)
    (ho : c'.mapping.opening? c'.table = some o) (hprivate : o.mode = .copyOnWrite)
    (hgrants : c'.table.Grants o) (hlen : o.length ≤ (c'.table.file o).bytes.length)
    (hword : o.length ≤ maxWord) (ops : List Op) :
    let file := (c'.table.file o).bytes
    let d := c'.afterAll ops
    let image := c'.imageAfterAll file file ops
    d.table.disk = c'.table.disk ∧ d.getData = slice image d.getPos (d.getPos + d.getSize) ∧
      (entry.mode.isReadable = true →
        (∀ n, let atHand := min n d.getSize
          (d.read n).1 = slice image d.getPos (d.getPos + atHand) ++
            slice file (d.getPos + atHand) (d.getPos + min n (o.length - d.getPos))) ∧
        d.readByte.1 =
          (slice (if 0 < d.getSize then image else file) d.getPos o.length).head?) := by
  intro file d image
  obtain ⟨i, hat, -, hmode⟩ := enter_at hentry ho
  have hstart : c'.Private c' i o.plain file :=
    { hat with
      mode_eq := rfl
      like := .refl _
      writable := hmode ▸ hwrites
      copying := hprivate
      grants := ⟨hgrants.allows, hgrants.never_refuses⟩
      length_eq := rfl
      covered := hlen
      depicts := depicts_of_bare (enter_bare hentry) }
  have hend := hstart.afterAll hword ops
  refine ⟨hend.like.disk, hend.getData_eq hend.depicts, fun hreads => ?_⟩
  have hmode : d.mode.isReadable = true := by
    rw [hend.mode_eq, hmode]
    exact hreads
  constructor
  · intro n atHand
    obtain ⟨m, e, hread, -, -, -, -, hgranted⟩ := hend.read_depicted hmode hend.depicts rfl
    obtain ⟨rfl, -⟩ := hgranted (hend.like.grants hend.grants).next
    rw [hend.like.file] at hread
    exact congrArg Prod.fst hread
  · obtain ⟨e, hread, -⟩ := hend.readByte hmode
    exact congrArg Prod.fst hread

end

/-- In the window that it was stored in, a byte is read again. -/
theorem private_shows_window_stored :
    let table : MapTable := { disk := ⟨[("f", .ofBytes [97, 98, 99])]⟩ }
    let entry : Entry := .path "f" { read := true, write := true } true
    let ops : List Op := [.write [88], .writeByte 89, .seek (.start 0) .both]
    ∃ c', enter { table := table } entry = (.ok (), c') ∧
      ((c'.afterAll ops).read 5).1 = [88, 89, 99] ∧ (c'.afterAll ops).table.disk = table.disk := by
  intro table entry ops
  let o : Opening :=
    { name := some "f"
      path := some "f"
      length := 3
      mode := .copyOnWrite
      readable := true
      writable := false }
  have hentry : enter { table := table } entry = (.ok (), (enter { table := table } entry).2) := by
    cbv
  obtain ⟨hdisk, -, hreads⟩ := private_shows_window (o := o) hentry rfl (by cbv) rfl
    ⟨rfl, fun _ => by cbv⟩ (by cbv) (by decide) ops
  obtain ⟨hread, -⟩ := hreads rfl
  exact ⟨_, hentry, (hread 5).trans (by cbv), hdisk.trans (by cbv)⟩

/-- A stored byte does not outlast its window: after a read that asked for more than there is, its
place shows the byte of the file again. -/
theorem private_byte_lost :
    let table : MapTable := { disk := ⟨[("f", .ofBytes [97])]⟩ }
    let entry : Entry := .path "f" { read := true, write := true } true
    ∃ c', enter { table := table } entry = (.ok (), c') ∧
      let c₁ := c'.afterAll [.write [88], .seek (.start 0) .both]
      let c₂ := c₁.afterAll [.read 2, .seek (.start 0) .both]
      (c₁.getPos = 0 ∧ c₁.readByte.1 = some 88) ∧ c₂.getPos = 0 ∧ c₂.readByte.1 = some 97 := by
  intro table entry
  exact ⟨(enter { table := table } entry).2, by cbv, ⟨by cbv, by cbv⟩, by cbv, by cbv⟩

end ByteChannel.Mapped
