import ByteChannel.Proofs.Mapped.Traffic

/-!
# What the window of any channel shows

Whatever was called on a channel, in whatever mode it was opened and whichever windows were refused:
its window shows the bytes of the file with what was stored through this window laid over them. Over
a shared or a read-only mapping that is the file itself.
-/

namespace ByteChannel.Mapped

/-- What is left of the bytes shown where `c` became `d`. Those of the file come in for them if a
window was asked for. -/
def carried (c d : Mapped) (file image : Bytes) : Bytes :=
  if d.table.windowsAsked = c.table.windowsAsked then image else file

def shownAfter [Paging] (c : Mapped) (o : Opening) (image : Bytes) (call : Call) : Bytes :=
  overwrite (carried c (c.perform call).2 (c.table.file o).bytes image) c.putPos (c.storedBy call)

def performAll [Paging] (c : Mapped) : List Call → Mapped
  | [] => c
  | call :: calls => (c.perform call).2.performAll calls

def shownAfterAll [Paging] (c : Mapped) (o : Opening) (image : Bytes) : List Call → Bytes
  | [] => image
  | call :: calls => (c.perform call).2.shownAfterAll o (c.shownAfter o image call) calls

variable {c d : Mapped} {i : Nat} {o : Opening} {m : OpenMode} {image bs : Bytes}

theorem exists_name (hlen : o.length ≤ (c.table.file o).bytes.length) (hpos : 0 < o.length) :
    ∃ name, o.name = some name := by
  cases hn : o.name with
  | none =>
    have hempty : (c.table.file o).bytes = [] := by
      rw [MapTable.file, hn]
      exact Store.bytes_ofBytes []
    rw [hempty] at hlen
    exact absurd hlen (Nat.not_le_of_lt hpos)
  | some name => exact ⟨name, rfl⟩

theorem slice_overwrite_to_end (old : Bytes) {start pos : Nat} {new : Bytes} (hs : start ≤ pos)
    (hpos : pos ≤ old.length) :
    slice (overwrite old pos new) start (pos + new.length) = slice old start pos ++ new := by
  rw [slice, List.take_drop, Nat.add_sub_cancel' (by omega), take_overwrite_add,
    Nat.sub_eq_zero_of_le hpos, List.replicate_zero, List.append_nil,
    List.drop_append_of_le_length (by rw [List.length_take]; omega), slice, List.take_drop,
    Nat.add_sub_cancel' hs]

/-- Stored bytes are laid over the file where the mapping shares its changes, and change no file
where it does not. -/
theorem Lays.on_disk (h : Lays c d o bs) (hcovered : o.length ≤ (c.table.file o).bytes.length) :
    (o.mode = .readWrite →
        (d.table.file o).bytes = overwrite (c.table.file o).bytes c.putPos bs) ∧
      (o.mode ≠ .readWrite → d.table.disk = c.table.disk) := by
  have hfits := h.fits
  refine ⟨fun hshared => ?_, fun hprivate => ?_⟩
  · rw [h.like.file, Opening.passes, if_pos hshared]
    by_cases hnil : bs = []
    · rw [hnil, MapTable.lay_nil, overwrite_nil_new _ (by omega)]
    · have hpos := List.length_pos_iff.2 hnil
      obtain ⟨name, hname⟩ := exists_name hcovered (by omega)
      exact MapTable.bytes_file_lay hname bs (by omega)
  · rw [h.like.disk, Opening.passes, if_neg hprivate, MapTable.lay_nil]

variable [Paging]

/-- A channel whose window, if it has one, shows its part of `image`. -/
structure Showing (m : OpenMode) (c : Mapped) (i : Nat) (o : Opening) (image : Bytes) : Prop
    extends Live m c i o where
  length_eq : image.length = (c.table.file o).bytes.length
  covered : o.length ≤ (c.table.file o).bytes.length
  depicts : c.Depicts o image
  agrees : o.mode ≠ .copyOnWrite → image = (c.table.file o).bytes

namespace Showing

theorem putPos_le_length (h : Showing m c i o image) : c.putPos ≤ image.length := by
  have := h.putPos_le
  have := h.covered
  rw [h.length_eq]
  omega

theorem length_le (h : Showing m c i o image) : o.length ≤ image.length := h.length_eq ▸ h.covered

/-- Another window shows the file. -/
theorem keeps (h : Showing m c i o image) (k : Keeps c d) (hd : d.Framed i o) :
    Showing m d i o (carried c d (c.table.file o).bytes image) where
  toLive := (h.toLive.leaves k hd).toLive
  length_eq := by
    rw [k.table.file, carried]
    split
    · exact h.length_eq
    · rfl
  covered := by
    rw [k.table.file]
    exact h.covered
  depicts w hw := by
    rw [k.table.file, carried]
    rcases k.renews.window w hw with ⟨hw', hasked⟩ | ⟨hbare, hasked⟩
    · rw [if_pos hasked]
      exact h.depicts w hw'
    · rw [if_neg (Nat.ne_of_gt hasked), hbare]
      exact View.copied_nil _
  agrees hshared := by
    rw [k.table.file, carried, h.agrees hshared, ite_self]

/-- Stored bytes are shown in their place, whether they reach the file or not. -/
theorem store (h : Showing m c i o image) (hw : m.isWritable = true)
    (hbs : bs.length ≤ c.put.available) :
    Showing m (c.store bs) i o (overwrite image c.putPos bs) := by
  have hroom := h.available_put_le
  have hlen := h.length_eq
  have hcovered := h.covered
  by_cases hnil : bs = []
  · rw [hnil, store_nil, overwrite_nil_new _ h.putPos_le_length]
    exact h
  have hpos := List.length_pos_iff.2 hnil
  have hlive := h.toLive.store hw hbs
  have hfits : c.putPos + bs.length ≤ image.length := by omega
  cases hm : o.mode with
  | readOnly => exact absurd hm (h.writes hw)
  | readWrite =>
    obtain ⟨name, hname⟩ := exists_name hcovered (by omega)
    have hfile : ((c.store bs).table.file o).bytes =
        overwrite (c.table.file o).bytes c.putPos bs := by
      rw [h.store_eq hm hbs]
      exact MapTable.bytes_file_lay hname bs (by omega)
    have himage : image = (c.table.file o).bytes := h.agrees (by rw [hm]; decide)
    rw [himage, ← hfile]
    exact ⟨hlive.toLive, rfl, Nat.le_trans hcovered hlive.length_le,
      hlive.depicts_file (by rw [hm]; decide), fun _ => rfl⟩
  | copyOnWrite =>
    cases hwin : c.view.window with
    | none =>
      have hl := View.length_unbound hwin
      rw [h.available_put, hl] at hbs
      omega
    | some w =>
      obtain ⟨hstore, -⟩ := h.toFramed.store_copying hm hwin bs
      refine ⟨hlive.toLive, ?_, ?_, ?_, fun hshared => absurd hm hshared⟩
      · rw [hstore, length_overwrite, Nat.max_eq_left hfits]
        exact hlen
      · rw [hstore]
        exact hcovered
      · rw [hstore]
        intro w₁ hw₁
        cases hw₁
        exact (h.depicts w hwin).copyBytes hfits

theorem setGet (h : Showing m c i o image) (pos : Nat) : Showing m (c.setGet pos) i o image :=
  ⟨⟨h.toFramed.setGet pos, h.mode_eq, h.writes⟩, h.length_eq, h.covered, h.depicts, h.agrees⟩

theorem forget (h : Showing m c i o image) (e : Option ChannelError) :
    Showing m { c with error := e } i o image :=
  ⟨h.toLive.forget e, h.length_eq, h.covered, h.depicts, h.agrees⟩

/-- Stored bytes are laid over what is shown after the change of window that made room for them. -/
theorem keeps_store (h : Showing m c i o image) (hw : m.isWritable = true) (k : Keeps c d)
    (hd : d.Framed i o) (hput : d.putPos = c.putPos) (hbs : bs.length ≤ d.put.available) :
    Showing m (d.store bs) i o
      (overwrite (carried c (d.store bs) (c.table.file o).bytes image) c.putPos bs) := by
  have hdrawn := h.keeps k hd
  obtain ⟨v, e, hstore, -, heq⟩ := hdrawn.store_moves (h.writes hw) hbs
  have hasked : (d.store bs).table.windowsAsked = d.table.windowsAsked := by
    rw [hstore, heq]
    exact MapTable.windowsAsked_lay _ _ _ _
  have hstored := hdrawn.store hw hbs
  rw [hput] at hstored
  unfold carried at hstored ⊢
  rwa [hasked]

theorem keeps_nothing (h : Showing m c i o image) (k : Keeps c d) (hd : d.Framed i o) :
    Showing m d i o (overwrite (carried c d (c.table.file o).bytes image) c.putPos []) := by
  have hdrawn := h.keeps k hd
  have hpos : c.putPos ≤ (carried c d (c.table.file o).bytes image).length := by
    rw [hdrawn.length_eq, k.table.file, ← h.length_eq]
    exact h.putPos_le_length
  rwa [overwrite_nil_new _ hpos]

theorem putPos_store (h : Showing m c i o image) (hw : m.isWritable = true)
    (hbs : bs.length ≤ c.put.available) : (c.store bs).putPos = c.putPos + bs.length := by
  obtain ⟨v, d, hd, -, heq⟩ := h.store_moves (h.writes hw) hbs
  have hnext : (c.put.bump bs.length).next = c.put.next + bs.length := Region.next_bump_of_le hbs
  rw [hd, heq, putPos, putPos, Nat.add_assoc, ← hnext]

/-- What was stored is shown right before the put cursor. -/
theorem putData_store (h : Showing m c i o image) (hw : m.isWritable = true)
    (hbs : bs.length ≤ c.put.available) : (c.store bs).putData = c.putData ++ bs := by
  have hstored := h.store hw hbs
  obtain ⟨v, d, hd, -, heq⟩ := h.store_moves (h.writes hw) hbs
  have hnext : (c.store bs).put.next = c.put.next + bs.length := by
    rw [hd, heq]
    exact Region.next_bump_of_le hbs
  have hoffset : (c.store bs).offset = c.offset := by rw [hd, heq]
  have hpos := h.putPos_le_length
  rw [putData, putData, h.base_put, hstored.base_put, h.range_eq h.depicts,
    hstored.range_eq hstored.depicts, Nat.min_eq_left hstored.next_put_le,
    Nat.min_eq_left h.next_put_le, hnext, hoffset, ← Nat.add_assoc]
  exact slice_overwrite_to_end _ (Nat.le_add_right _ _) hpos

theorem write (h : Showing m c i o image) (src : Bytes) :
    Showing m (c.write src).2 i o
      (overwrite (carried c (c.write src).2 (c.table.file o).bytes image)
        c.putPos (c.stored (.write src))) := by
  by_cases hw : m.isWritable = true
  · obtain ⟨k, d, hwrite, hd, hkeeps, hput, hlen, hk, -⟩ := h.write_eq (h.mode_eq.symm ▸ hw) src
    have hstored := h.keeps_store hw hkeeps hd hput (hlen.symm ▸ hk)
    rw [stored, hwrite]
    exact hstored.setGet _
  · have hwrite : c.write src = (0, c.latch (some .notOpenForOutput)) :=
      if_pos (not_canWrite (h.mode_eq.symm ▸ hw))
    rw [stored, hwrite, List.take_zero]
    exact h.keeps_nothing (keeps_latch c _) (h.toFramed.latch _)

theorem writeByte (h : Showing m c i o image) (b : UInt8) :
    Showing m (c.writeByte b).2 i o (overwrite
      (carried c (c.writeByte b).2 (c.table.file o).bytes image) c.putPos
      (c.stored (.writeByte b))) := by
  by_cases hw : m.isWritable = true
  · obtain ⟨d, hwrite, hd⟩ := h.writeByte_eq (h.mode_eq.symm ▸ hw) b
    by_cases ha : 0 < d.put.available
    · have hone : [b].length ≤ d.put.available := ha
      rw [if_pos ha] at hwrite
      rw [stored, hwrite, if_pos rfl]
      exact h.keeps_store hw hd.keeps hd.toFramed hd.putPos_eq hone
    · rw [if_neg ha] at hwrite
      rw [stored, hwrite, if_neg Bool.false_ne_true]
      exact h.keeps_nothing hd.keeps hd.toFramed
  · have hwrite : c.writeByte b = (false, c.latch (some .notOpenForOutput)) :=
      if_pos (not_canWrite (h.mode_eq.symm ▸ hw))
    rw [stored, hwrite, if_neg Bool.false_ne_true]
    exact h.keeps_nothing (keeps_latch c _) (h.toFramed.latch _)

theorem seek (h : Showing m c i o image) (hword : o.length ≤ maxWord) (origin : Origin)
    (side : Side) :
    Showing m (c.seek origin side).2 i o (overwrite
      (carried c (c.seek origin side).2 (c.table.file o).bytes image) c.putPos []) := by
  obtain ⟨d, hseek, hd, hkeeps, -⟩ := h.toFramed.seek hword origin side
  rw [hseek]
  exact h.keeps_nothing hkeeps hd.toFramed

theorem perform (h : Showing m c i o image) (hword : o.length ≤ maxWord) (call : Call) :
    Showing m (c.perform call).2 i o (c.shownAfter o image call) := by
  unfold shownAfter
  cases call with
  | act a =>
    cases a with
    | op op =>
      cases op with
      | read n => exact h.keeps_nothing (h.keeps_read n).1 (h.keeps_read n).2
      | readByte => exact h.keeps_nothing h.keeps_readByte.1 h.keeps_readByte.2
      | reserveGet n => exact h.keeps_nothing (h.keeps_reserveGet n).1 (h.keeps_reserveGet n).2
      | reservePut n => exact h.keeps_nothing (h.keeps_reservePut n).1 (h.keeps_reservePut n).2
      | write src => exact h.write src
      | writeByte b => exact h.writeByte b
      | seek origin side => exact h.seek hword origin side
    | peek => exact h.keeps_nothing h.keeps_peek.1 h.keeps_peek.2
    | flush => exact h.keeps_nothing h.flush.1 h.flush.2.1
  | takeError => exact h.keeps_nothing (.of_eq rfl rfl rfl rfl) (h.toLive.forget none).toFramed
  | tryRead n =>
    have hread := h.keeps_nothing (h.keeps_read n).1 (h.keeps_read n).2
    simp only [Mapped.perform, tryRead, Prod.map, id_eq]
    split
    · exact h.keeps_nothing (.refl c) h.toFramed
    · split
      · split
        · exact hread.forget none
        · exact hread
      · exact hread
  | tryWrite src =>
    have hwrite := h.write src
    simp only [Mapped.perform, tryWrite, Prod.map, id_eq]
    split
    · exact hwrite.forget none
    · exact hwrite
  | tryFlush => exact h.keeps_nothing h.flush.1 h.flush.2.1
  | trySeek origin => exact h.seek hword origin .both

theorem performAll (h : Showing m c i o image) (hword : o.length ≤ maxWord) (calls : List Call) :
    Showing m (c.performAll calls) i o (c.shownAfterAll o image calls) := by
  induction calls generalizing c image with
  | nil => exact h
  | cons call calls ih => exact ih (h.perform hword call)

end Showing

theorem shownAfterAll_plain (c : Mapped) (o : Opening) (image : Bytes) (calls : List Call) :
    c.shownAfterAll o.plain image calls = c.shownAfterAll o image calls := by
  induction calls generalizing c image with
  | nil => rfl
  | cons call calls ih => exact ih _ _

/-- Whatever was called on a channel that was opened, its window shows what it should. -/
theorem enter_showing {c c' : Mapped} {entry : Entry} (h : c.enter entry = (.ok (), c'))
    (ho : c'.mapping.opening? c'.table = some o)
    (hlen : o.length ≤ (c'.table.file o).bytes.length) (hword : o.length ≤ maxWord)
    (calls : List Call) :
    ∃ i, Showing entry.mode (c'.performAll calls) i o.plain
      (c'.shownAfterAll o (c'.table.file o).bytes calls) := by
  obtain ⟨i, hlive⟩ := enter_live h ho
  have hstart : Showing entry.mode c' i o.plain (c'.table.file o).bytes :=
    ⟨hlive, rfl, hlen, depicts_of_bare (enter_bare h), fun _ => rfl⟩
  have hend := hstart.performAll hword calls
  rw [shownAfterAll_plain] at hend
  exact ⟨i, hend⟩

end ByteChannel.Mapped
