import ByteChannel.Proofs.Mapped.Framed
import ByteChannel.Proofs.Mapping.Deposits
import ByteChannel.Proofs.Mapping.Holders

/-!
# Views inside their openings

Openings are made inside their files, and files keep their lengths while bytes are stored in
windows. So every view lies inside its file, and one that shares its changes shows the file itself.
-/

namespace ByteChannel

namespace MapTable

variable {t t' t'' : MapTable} {o : Opening}

/-- Every opening lies inside its file, and the length of a file is a word. -/
structure Covered (t : MapTable) : Prop where
  short : ∀ file, (t.disk.bytes file).length < maxWord
  within : ∀ i o, t.opened? i = some o →
    o.length ≤ maxWord ∧ ∀ file, o.name = some file → o.length ≤ (t.disk.bytes file).length

/-- What was opened stays, what is opened besides lies inside its file, and files change by one
deposit at most. -/
structure Grows (t : MapTable) (x : Option Deposit) (t' : MapTable) : Prop where
  opened : ∀ i o, t.opened? i = some o → t'.opened? i = some o
  covered : t.Covered → t'.Covered
  bytes : ∀ file, t'.disk.bytes file = Deposit.onto x file (t.disk.bytes file)

namespace Grows

theorem refl (t : MapTable) : t.Grows none t := ⟨fun _ _ => id, id, fun _ => rfl⟩

theorem trans (h : t.Grows none t') (k : t'.Grows none t'') : t.Grows none t'' :=
  ⟨fun i o ho => k.opened i o (h.opened i o ho), fun hc => k.covered (h.covered hc),
    fun file => (k.bytes file).trans (h.bytes file)⟩

/-- Nothing is opened, and a deposit goes into a file. -/
theorem of_deposit {x : Option Deposit} (ho : ∀ i, t'.opened? i = t.opened? i)
    (hfits : Deposit.Fits x t.disk)
    (hbytes : ∀ file, t'.disk.bytes file = Deposit.onto x file (t.disk.bytes file)) :
    t.Grows x t' := by
  have hlen (file : String) : (t'.disk.bytes file).length = (t.disk.bytes file).length := by
    rw [hbytes, Deposit.length_onto hfits]
  refine ⟨fun i o hi => (ho i).trans hi, fun hc => ⟨fun file => ?_, fun i o hi => ?_⟩, hbytes⟩
  · rw [hlen]
    exact hc.short file
  · obtain ⟨hword, hfile⟩ := hc.within i o ((ho i).symm.trans hi)
    refine ⟨hword, fun file hname => ?_⟩
    rw [hlen]
    exact hfile file hname

theorem of_like (h : t.Like t') : t.Grows none t' :=
  of_deposit h.opened (Deposit.fits_none _) fun file => by rw [h.disk]; rfl

end Grows

theorem Covered.length_lt (h : t.Covered) (name : Option String) :
    t.disk.length name < maxWord := by
  cases name with
  | none => exact (by decide : Disk.blockSize < maxWord)
  | some file =>
    have hshort := h.short file
    rw [Disk.bytes, Store.length_bytes] at hshort
    exact hshort

theorem opened?_ofOpening (t : MapTable) (o : Opening) (i : Nat) :
    (Mapping.ofOpening t o).2.opened? i =
      if i = t.openings.length then some o.plain else t.opened? i := by
  rw [opened?, opened?, opening?_ofOpening]
  split <;> rfl

/-- An opening is made of so much as its file has at most. -/
theorem grows_ofOpening (hlen : t.Covered → o.length ≤ t.disk.length o.name) :
    t.Grows none (Mapping.ofOpening t o).2 := by
  refine ⟨fun i o' hi => ?_, fun hc => ⟨hc.short, fun i o' hi => ?_⟩, fun _ => rfl⟩
  · have hold : i ≠ t.openings.length := by
      rintro rfl
      rw [opened?, opening?, List.getElem?_eq_none (Nat.le_refl _)] at hi
      cases hi
    rw [opened?_ofOpening, if_neg hold]
    exact hi
  · rw [opened?_ofOpening] at hi
    split at hi
    · cases hi
      have hle := hlen hc
      refine ⟨Nat.le_trans hle (Nat.le_of_lt (hc.length_lt o.name)), fun file hname => ?_⟩
      have hname : o.name = some file := hname
      rw [hname] at hle
      rw [Disk.bytes, Store.length_bytes]
      exact hle
    · exact hc.within i o' hi

theorem grows_openPath (t : MapTable) (path : String) (mode : MapMode) :
    t.Grows none (Mapping.openPath t path mode).2 := by
  unfold Mapping.openPath
  dsimp only
  split
  · exact .refl t
  · exact grows_ofOpening fun _ => Nat.le_refl _

theorem grows_ofFile (t : MapTable) (file : OpenFile) (mode : MapMode) (size : Option Nat) :
    t.Grows none (Mapping.ofFile t file mode size).2 := by
  unfold Mapping.ofFile
  dsimp only
  split
  · exact .refl t
  · next hrange =>
    apply grows_ofOpening
    intro hc
    have hlt := hc.length_lt file.name
    unfold checkRange addSat at hrange
    split at hrange
    · cases hrange
    · dsimp only
      omega

end MapTable

namespace View

variable {v : View} {t t' : MapTable} {o : Opening}

/-- A view lies inside what it is attached to, and has no copies unless its window is private. -/
def Sits (v : View) (t : MapTable) : Prop :=
  ∀ i, v.attached = some i → ∃ o, t.opened? i = some o ∧ v.offset + v.length ≤ o.length ∧
    ∀ w, v.window = some w → o.mode ≠ .copyOnWrite → w.copies = []

theorem sits_unattached (h : v.attached = none) (t : MapTable) : v.Sits t := by
  intro i hi
  rw [h] at hi
  cases hi

/-- Where a view stands. -/
theorem Sits.place (h : v.Sits t) (ho : v.opening? t = some o) :
    ∃ i, v.attached = some i ∧ t.opened? i = some o.plain ∧ v.offset + v.length ≤ o.length ∧
      ∀ w, v.window = some w → o.mode ≠ .copyOnWrite → w.copies = [] := by
  obtain ⟨i, hi, hheld⟩ := Option.bind_eq_some_iff.1 ho
  have hopened : t.opened? i = some o.plain := by rw [MapTable.opened?, hheld]; rfl
  obtain ⟨o', ho', hin⟩ := h i hi
  obtain rfl : o.plain = o' := Option.some.inj (hopened.symm.trans ho')
  exact ⟨i, hi, hopened, hin⟩

theorem Sits.grows {x : Option Deposit} (h : v.Sits t) (k : t.Grows x t') : v.Sits t' := by
  intro i hi
  obtain ⟨o, ho, hin⟩ := h i hi
  exact ⟨o, k.opened i o ho, hin⟩

theorem Sits.unmap (h : v.Sits t) : v.unmap.Sits t := by
  intro i hi
  obtain ⟨o, ho, hin, -⟩ := h i hi
  exact ⟨o, ho, Nat.le_trans (Nat.add_le_add_left (Nat.zero_le _) _) hin, nofun⟩

/-- No window is asked for outside of an opening. -/
theorem remap_outside (v : View) (t : MapTable) (m : Mapping) (offset len : Nat) :
    (∃ e v', v.remap t m offset len = (.error e, v', t) ∧ (v' = v ∨ v' = v.unmap)) ∨
      ∃ i o, m.holds = some i ∧ t.opened? i = some o ∧ offset < o.length := by
  cases hm : m.holds with
  | none => exact .inl ⟨_, v, by rw [remap, hm], .inl rfl⟩
  | some i =>
    cases ho : t.opening? i with
    | none =>
      have hnone : m.opening? t = none := by rw [Mapping.opening?, hm, Option.bind_some, ho]
      exact .inl ⟨_, v, by rw [remap, hm, hnone], .inl rfl⟩
    | some o =>
      have hsome : m.opening? t = some o := by rw [Mapping.opening?, hm, Option.bind_some, ho]
      by_cases hle : o.length ≤ offset
      · exact .inl ⟨_, v.unmap, by rw [remap, hm, hsome]; exact if_pos hle, .inr rfl⟩
      · exact .inr ⟨i, o.plain, rfl, by rw [MapTable.opened?, ho]; rfl, Nat.lt_of_not_le hle⟩

theorem like_remap (v : View) (t : MapTable) (m : Mapping) (offset len : Nat) :
    t.Like (v.remap t m offset len).2.2 := by
  obtain ⟨e, v', hremap, -⟩ | ⟨i, o, hm, ho, hoff⟩ := v.remap_outside t m offset len
  · rw [hremap]
    exact .refl t
  · obtain ⟨r, v', t', hremap, hlike, -⟩ := remap_spec (v := v) hm ho hoff len
    rw [hremap]
    exact hlike

theorem Sits.remap (h : v.Sits t) (m : Mapping) (offset len : Nat) :
    (v.remap t m offset len).2.1.Sits (v.remap t m offset len).2.2 := by
  obtain ⟨e, v', hremap, rfl | rfl⟩ | ⟨i, o, hm, ho, hoff⟩ := v.remap_outside t m offset len
  · rw [hremap]
    exact h
  · rw [hremap]
    exact h.unmap
  · obtain ⟨r, v', t', hremap, hlike, -, ⟨-, rfl⟩ | ⟨-, rfl, -⟩⟩ :=
      remap_spec (v := v) hm ho hoff len
    · rw [hremap]
      intro j hj
      cases hj
      refine ⟨o, (hlike.opened i).trans ho, Mapped.windowLength_le len (Nat.le_of_lt hoff),
        fun w hw _ => ?_⟩
      cases hw
      rfl
    · rw [hremap]
      exact h.unmap.grows (.of_like hlike)

theorem Sits.release (v : View) (t : MapTable) : (v.release t).1.Sits (v.release t).2 :=
  sits_unattached rfl _

/-- Bytes that fit into the window of a view are deposited where it shares its changes. -/
theorem Sits.store [Paging] (h : v.Sits t) (hc : t.Covered) (ho : v.opening? t = some o) {pos : Nat}
    {bs : Bytes} (hfits : pos + bs.length ≤ v.length) :
    let r := (v.store? t pos bs).getD (v, t)
    let x := Deposit.into o (v.offset + pos) (o.passes bs)
    r.1.Sits r.2 ∧ t.Grows x r.2 ∧ Deposit.Fits x t.disk := by
  intro r x
  obtain ⟨i, hi, hopened, hin, -⟩ := h.place ho
  have hfile (file : String) (hname : o.name = some file) :
      v.offset + v.length ≤ (t.disk.bytes file).length :=
    Nat.le_trans hin ((hc.within i _ hopened).2 file hname)
  have hx : Deposit.Fits x t.disk := Deposit.fits_into fun file hname => by
    have := hfile file hname
    have := o.length_passes_le bs
    omega
  -- where nothing reaches the file
  have hstays (hnone : o.passes bs = []) : t.Grows x t := by
    refine .of_deposit (fun _ => rfl) hx fun file => ?_
    simp only [x, hnone]
    exact (Deposit.onto_into_nil (fun name hname => by have := hfile name hname; omega) file).symm
  suffices hr : r.1.Sits r.2 ∧ t.Grows x r.2 from ⟨hr.1, hr.2, hx⟩
  simp only [r, store?, ho]
  cases hw : v.window with
  | none =>
    have hl := length_unbound hw
    have hbs : bs = [] := List.eq_nil_of_length_eq_zero (by omega)
    exact ⟨h, hstays (by rw [hbs, Opening.passes_nil])⟩
  | some w =>
    cases hm : o.mode with
    | readOnly =>
      simp only [hm, Option.getD_none]
      exact ⟨h, hstays (if_neg (by rw [hm]; decide))⟩
    | readWrite =>
      have hgrows : t.Grows x (t.setFile o ((t.file o).overwrite (v.offset + pos) bs)) := by
        refine .of_deposit (fun j => ?_) hx fun file => ?_
        · unfold MapTable.setFile
          split <;> rfl
        · rw [Deposit.bytes_setFile]
          simp only [x, Opening.passes, if_pos hm]
      simp only [hm, Option.getD_some]
      exact ⟨h.grows hgrows, hgrows⟩
    | copyOnWrite =>
      simp only [hm, Option.getD_some]
      refine ⟨fun j hj => ?_, hstays (if_neg (by rw [hm]; decide))⟩
      have hj : v.attached = some j := hj
      obtain rfl : i = j := Option.some.inj (hi.symm.trans hj)
      refine ⟨o.plain, hopened, ?_, fun _ _ hshared => absurd hm hshared⟩
      have hl := length_bound hw
      exact hl ▸ hin

/-- A window that shares its changes shows the file. -/
theorem Sits.range_eq [Paging] (h : v.Sits t) (ho : v.opening? t = some o)
    (hshared : o.mode ≠ .copyOnWrite) (start stop : Nat) :
    v.range t start stop =
      slice (t.file o).bytes (v.offset + start) (v.offset + min stop v.length) := by
  obtain ⟨-, -, -, -, hbare⟩ := h.place ho
  rw [range, ho]
  cases hw : v.window with
  | none =>
    have hl := length_unbound hw
    rw [hl, slice_of_stop_le_start _ (by omega)]
  | some w =>
    have hl := length_bound hw
    dsimp only
    rw [hbare w hw hshared, hl]
    exact (copied_nil _).shown_eq _ _

end View

/-! ## Opening and closing channels -/

namespace Mapped

variable (c : Mapped)

theorem grows_openWide (path : Except ChannelError String) (mode : OpenMode) (keepPrivate : Bool) :
    c.table.Grows none (c.openWide path mode keepPrivate).2.table := by
  unfold openWide
  cases hr : c.refusal? mode with
  | some e => exact .refl _
  | none =>
    cases path with
    | error e => exact .refl _
    | ok path =>
      have hopen := c.table.grows_openPath path (.forChannel mode keepPrivate)
      simp only [openPath, hr]
      split
      · exact hopen
      · exact hopen.trans (.of_like (View.like_sync c.view _))

theorem like_attach (m : Mapping) (mode : OpenMode) :
    c.table.Like (c.attach m mode).2.table := by
  unfold attach
  split
  · exact .refl _
  · split
    · exact .refl _
    · split
      · exact .refl _
      · exact (MapTable.like_clone m c.table).trans (View.like_sync c.view _)

theorem like_close : c.table.Like c.close.2.table := by
  unfold close
  split
  · exact .refl _
  · exact (MapTable.like_release c.table c.view.attached).trans
      (MapTable.like_release _ c.mapping.holds)

theorem like_discard : c.table.Like c.discard.table := by
  unfold discard
  split
  · exact (View.like_sync c.view c.table).trans
      (like_close { c with table := (c.view.sync c.table).2 })
  · exact .refl _

end Mapped

end ByteChannel
