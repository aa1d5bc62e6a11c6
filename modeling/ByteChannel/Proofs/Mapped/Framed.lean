import ByteChannel.Mapped.Transfer
import ByteChannel.Proofs.Mapping
import ByteChannel.Proofs.Mapping.Copies

/-!
# Where the window of an open channel lies

The offset of an open channel never leaves its mapping, and a window that it has starts there. Both
regions span the whole window and are empty without one. This holds however far the two cursors are
apart and whichever windows are refused.
-/

namespace ByteChannel.Mapped

variable {c d : Mapped} {i : Nat} {o : Opening}

/-- The channel is open on an opening. -/
structure Over (c : Mapped) (i : Nat) (o : Opening) : Prop where
  holds : c.mapping.holds = some i
  opened : c.table.opened? i = some o
  offset_le : c.offset ≤ o.length

structure Framed (c : Mapped) (i : Nat) (o : Opening) : Prop extends Over c i o where
  base_get : c.get.base = 0
  limit_get : c.get.limit = c.view.length
  base_put : c.put.base = 0
  limit_put : c.put.limit = c.view.length
  window_le : c.offset + c.view.length ≤ o.length
  bound : ∀ w, c.view.window = some w → c.view.attached = some i ∧ c.view.offset = c.offset
  /-- Only private windows have copies of their own. -/
  bare : ∀ w, c.view.window = some w → o.mode ≠ .copyOnWrite → w.copies = []

/-- The window, if there is one, shows its part of `image`. -/
def Depicts [Paging] (c : Mapped) (o : Opening) (image : Bytes) : Prop :=
  ∀ w, c.view.window = some w → View.Copied (c.table.file o) w.copies image

/-- The window, if there is one, has no copies. -/
def Bare (c : Mapped) : Prop := ∀ w, c.view.window = some w → w.copies = []

theorem depicts_of_bare [Paging] (h : c.Bare) : c.Depicts o (c.table.file o).bytes := by
  intro w hw
  rw [h w hw]
  exact View.copied_nil _

/-- Both cursors stand at a position. -/
structure At (c : Mapped) (i : Nat) (o : Opening) (pos : Nat) : Prop extends Framed c i o where
  getPos_eq : c.getPos = pos
  putPos_eq : c.putPos = pos

/-- A window is the one from before, or one that was asked for and has no copies yet. -/
structure Renews (c d : Mapped) : Prop where
  asked_le : c.table.windowsAsked ≤ d.table.windowsAsked
  window : ∀ w, d.view.window = some w →
    (c.view.window = some w ∧ d.table.windowsAsked = c.table.windowsAsked) ∨
      (w.copies = [] ∧ c.table.windowsAsked < d.table.windowsAsked)

namespace Renews

theorem trans {e : Mapped} (h : Renews c d) (k : Renews d e) : Renews c e := by
  refine ⟨Nat.le_trans h.asked_le k.asked_le, fun w hw => ?_⟩
  have hle := h.asked_le
  have hle' := k.asked_le
  rcases k.window w hw with ⟨hw', hasked⟩ | ⟨hbare, hasked⟩
  · rcases h.window w hw' with ⟨hw'', hasked'⟩ | ⟨hbare, hasked'⟩
    · exact .inl ⟨hw'', hasked.trans hasked'⟩
    · exact .inr ⟨hbare, by omega⟩
  · exact .inr ⟨hbare, by omega⟩

theorem of_eq (hv : d.view = c.view) (ht : d.table.windowsAsked = c.table.windowsAsked) :
    Renews c d :=
  ⟨Nat.le_of_eq ht.symm, fun _ hw => .inl ⟨hv ▸ hw, ht⟩⟩

theorem of_unbound (hw : d.view.window = none)
    (ht : c.table.windowsAsked ≤ d.table.windowsAsked) : Renews c d := by
  refine ⟨ht, fun w hd => ?_⟩
  rw [hw] at hd
  cases hd

end Renews

/-- What a change of the window leaves alone. -/
structure Keeps (c d : Mapped) : Prop where
  mapping : d.mapping = c.mapping
  mode : d.mode = c.mode
  table : c.table.Like d.table
  renews : Renews c d

namespace Keeps

theorem of_eq (hmapping : d.mapping = c.mapping) (hmode : d.mode = c.mode)
    (ht : d.table = c.table) (hv : d.view = c.view) : Keeps c d :=
  ⟨hmapping, hmode, ht ▸ .refl _, .of_eq hv (by rw [ht])⟩

theorem refl (c : Mapped) : Keeps c c := .of_eq rfl rfl rfl rfl

theorem trans {e : Mapped} (h : Keeps c d) (k : Keeps d e) : Keeps c e :=
  ⟨k.mapping.trans h.mapping, k.mode.trans h.mode, h.table.trans k.table, h.renews.trans k.renews⟩

theorem lay (h : Keeps c d) (o : Opening) (pos : Nat) (bs : Bytes) :
    Keeps { c with table := c.table.lay o pos bs } { d with table := d.table.lay o pos bs } := by
  refine ⟨h.mapping, h.mode, h.table.lay o pos bs, ?_, ?_⟩
  · simpa only [MapTable.windowsAsked_lay] using h.renews.asked_le
  · simpa only [MapTable.windowsAsked_lay] using h.renews.window

end Keeps

/-- Nothing is latched but failed write-backs. -/
def LatchesSync (c : Mapped) : Prop := ∀ e, c.error = some e → c.table.LosesSync e

theorem latchesSync_none : LatchesSync { c with error := none } := by
  intro e he
  cases he

theorem LatchesSync.congr (h : c.LatchesSync) (hlike : c.table.Like d.table)
    (he : d.error = c.error) : d.LatchesSync := by
  intro e hd
  exact hlike.losesSync (h e (he ▸ hd))

theorem not_canRead (h : ¬c.mode.isReadable = true) : c.canRead = false := by
  simp [Mapped.canRead, h]

theorem not_canWrite (h : ¬c.mode.isWritable = true) : c.canWrite = false := by
  simp [Mapped.canWrite, h]

namespace Over

theorem isOpen (h : c.Over i o) : c.isOpen = true := by
  simp [Mapped.isOpen, Mapping.isOpen, h.holds]

/-- What is held on the opening, with its holders. -/
theorem exists_opening (h : c.Over i o) :
    ∃ held, c.table.opening? i = some held ∧ held.plain = o :=
  Option.map_eq_some_iff.1 h.opened

theorem size_eq (h : c.Over i o) : c.size = o.length := by
  obtain ⟨held, hheld, rfl⟩ := h.exists_opening
  simp [Mapped.size, Mapping.size, Mapping.opening?, h.holds, hheld, Opening.plain]

theorem keeps (h : c.Over i o) (k : Keeps c d) (hoff : d.offset ≤ o.length) : d.Over i o :=
  ⟨k.mapping ▸ h.holds, (k.table.opened i).trans h.opened, hoff⟩

theorem canRead (h : c.Over i o) (hm : c.mode.isReadable = true) : c.canRead = true := by
  simp [Mapped.canRead, h.isOpen, hm]

theorem canWrite (h : c.Over i o) (hm : c.mode.isWritable = true) : c.canWrite = true := by
  simp [Mapped.canWrite, h.isOpen, hm]

end Over

/-! ## The cursors -/

theorem next_setGet (c : Mapped) (pos : Nat) :
    (c.setGet pos).get.next = min pos c.view.length := Region.next_clamped _ _

theorem next_setPut (c : Mapped) (pos : Nat) :
    (c.setPut pos).put.next = min pos c.view.length := Region.next_clamped _ _

theorem keeps_setGet (c : Mapped) (pos : Nat) : Keeps c (c.setGet pos) := .of_eq rfl rfl rfl rfl

theorem keeps_setPut (c : Mapped) (pos : Nat) : Keeps c (c.setPut pos) := .of_eq rfl rfl rfl rfl

theorem keeps_latch (c : Mapped) (e : Option ChannelError) : Keeps c (c.latch e) :=
  .of_eq rfl rfl rfl rfl

namespace Framed

theorem withGet (h : c.Framed i o) {r : Region} (hb : r.base = 0) (hl : r.limit = c.view.length) :
    Framed { c with get := r } i o :=
  { h with base_get := hb, limit_get := hl }

theorem withPut (h : c.Framed i o) {r : Region} (hb : r.base = 0) (hl : r.limit = c.view.length) :
    Framed { c with put := r } i o :=
  { h with base_put := hb, limit_put := hl }

theorem setGet (h : c.Framed i o) (pos : Nat) : (c.setGet pos).Framed i o :=
  h.withGet rfl (Region.limit_clamped pos _)

theorem setPut (h : c.Framed i o) (pos : Nat) : (c.setPut pos).Framed i o :=
  h.withPut rfl (Region.limit_clamped pos _)

theorem bumpGet (h : c.Framed i o) (n : Nat) : Framed { c with get := c.get.bump n } i o :=
  h.withGet h.base_get h.limit_get

theorem bumpPut (h : c.Framed i o) (n : Nat) : Framed { c with put := c.put.bump n } i o :=
  h.withPut h.base_put h.limit_put

theorem next_get_le (h : c.Framed i o) : c.get.next ≤ c.view.length :=
  h.limit_get ▸ c.get.next_le_limit

theorem next_put_le (h : c.Framed i o) : c.put.next ≤ c.view.length :=
  h.limit_put ▸ c.put.next_le_limit

theorem available_get (h : c.Framed i o) : c.get.available = c.view.length - c.get.next := by
  rw [Region.available, h.limit_get]

theorem available_put (h : c.Framed i o) : c.put.available = c.view.length - c.put.next := by
  rw [Region.available, h.limit_put]

theorem consumed_get (h : c.Framed i o) : c.get.consumed = c.get.next := by
  rw [Region.consumed, h.base_get, Nat.sub_zero]

theorem consumed_put (h : c.Framed i o) : c.put.consumed = c.put.next := by
  rw [Region.consumed, h.base_put, Nat.sub_zero]

theorem getPos_le (h : c.Framed i o) : c.getPos ≤ o.length :=
  Nat.le_trans (Nat.add_le_add_left h.next_get_le _) h.window_le

theorem putPos_le (h : c.Framed i o) : c.putPos ≤ o.length :=
  Nat.le_trans (Nat.add_le_add_left h.next_put_le _) h.window_le

/-! ## Bytes of the window -/

theorem depicts_file [Paging] (h : c.Framed i o) (hshared : o.mode ≠ .copyOnWrite) :
    c.Depicts o (c.table.file o).bytes :=
  depicts_of_bare fun w hw => h.bare w hw hshared

/-- What a window shows lies in the bytes that it depicts, a missing window shows nothing. -/
theorem range_eq [Paging] (h : c.Framed i o) {image : Bytes} (himage : c.Depicts o image)
    (start stop : Nat) :
    c.view.range c.table start stop =
      slice image (c.offset + start) (c.offset + min stop c.view.length) := by
  cases hw : c.view.window with
  | none =>
    have hl := View.length_unbound hw
    have hle : c.offset + min stop 0 ≤ c.offset + start := by omega
    rw [hl, slice_of_stop_le_start _ hle, View.range, hw]
    cases c.view.opening? c.table <;> rfl
  | some w =>
    obtain ⟨hat, hoff⟩ := h.bound w hw
    obtain ⟨held, hheld, rfl⟩ := h.exists_opening
    have hv : c.view.opening? c.table = some held := by
      rw [View.opening?, hat]
      exact hheld
    have hl := View.length_bound hw
    rw [View.range, hv, hw, hl, ← hoff]
    exact (himage w hw).shown_eq _ _

/-- Bytes stored in a shared window are stored in the file. -/
theorem store_eq [Paging] (h : c.Framed i o) (hmode : o.mode = .readWrite) {bs : Bytes}
    (hbs : bs.length ≤ c.put.available) :
    c.store bs =
      { c with table := c.table.lay o c.putPos bs, put := c.put.bump bs.length } := by
  by_cases hnil : bs = []
  · rw [store, if_pos hnil, hnil, MapTable.lay_nil, List.length_nil, Region.bump_zero]
  · have hpos := List.length_pos_iff.2 hnil
    rw [h.available_put] at hbs
    cases hw : c.view.window with
    | none =>
      have hl := View.length_unbound hw
      omega
    | some w =>
      obtain ⟨hat, hoff⟩ := h.bound w hw
      obtain ⟨held, hheld, rfl⟩ := h.exists_opening
      have hv : c.view.opening? c.table = some held := by
        rw [View.opening?, hat]
        exact hheld
      have hmode : held.mode = .readWrite := hmode
      have hstore : c.view.store? c.table c.put.next bs =
          some (c.view, c.table.lay held.plain c.putPos bs) := by
        rw [MapTable.lay_of_ne_nil _ _ _ hnil, View.store?, hv, hw]
        simp only [hmode, hoff]
        rfl
      rw [store, if_neg hnil, hstore]

end Framed

/-! ## Sliding -/

theorem keeps_dropWindow (c : Mapped) (pos : Nat) :
    Keeps c (Mapped.dropWindow { c with offset := pos }) :=
  ⟨rfl, rfl, View.like_sync _ _, .of_unbound rfl (Nat.le_of_eq (View.windowsAsked_sync _ _).symm)⟩

theorem LatchesSync.dropWindow (h : c.LatchesSync) : c.dropWindow.LatchesSync := by
  have hlike : c.table.Like c.dropWindow.table := View.like_sync _ _
  intro e he
  apply hlike.losesSync
  cases hc : c.error with
  | some e' =>
    simp only [Mapped.dropWindow, latch, hc, Option.some_or, Option.some.injEq] at he
    exact he ▸ h e' hc
  | none =>
    simp only [Mapped.dropWindow, latch, hc, Option.none_or] at he
    exact View.losesSync_of_sync he

/-- Without a window both cursors are at the offset. -/
theorem Over.unbound (h : c.Over i o) (hview : c.view.window = none) (hget : c.get = .empty)
    (hput : c.put = .empty) : c.At i o c.offset where
  toOver := h
  base_get := by rw [hget]; rfl
  limit_get := by simp [hget, Region.empty, View.length, hview]
  base_put := by rw [hput]; rfl
  limit_put := by simp [hput, Region.empty, View.length, hview]
  window_le := by simpa [View.length, hview] using h.offset_le
  bound w hw := by
    rw [hview] at hw
    cases hw
  bare w hw := by
    rw [hview] at hw
    cases hw
  getPos_eq := by simp [getPos, hget, Region.empty]
  putPos_eq := by simp [putPos, hput, Region.empty]

theorem Over.dropWindow (h : c.Over i o) : c.dropWindow.At i o c.offset :=
  (h.keeps (keeps_dropWindow c c.offset) h.offset_le).unbound rfl rfl rfl

/-- A new window, with both cursors at its start. -/
theorem Over.window (h : c.Over i o) {n : Nat}
    (hview : c.view = ⟨some i, some { length := n }, c.offset⟩) (hn : c.offset + n ≤ o.length) :
    ((c.setGet 0).setPut 0).At i o c.offset where
  toOver := ⟨h.holds, h.opened, h.offset_le⟩
  base_get := rfl
  limit_get := Region.limit_clamped 0 _
  base_put := rfl
  limit_put := Region.limit_clamped 0 _
  window_le := by
    change c.offset + c.view.length ≤ o.length
    rw [hview]
    exact hn
  bound w _ := by
    change c.view.attached = some i ∧ c.view.offset = c.offset
    rw [hview]
    exact ⟨rfl, rfl⟩
  bare w hw _ := by
    have hw : c.view.window = some w := hw
    rw [hview] at hw
    cases hw
    rfl
  getPos_eq := by
    change c.offset + (c.setGet 0).get.next = c.offset
    rw [next_setGet, Nat.zero_min, Nat.add_zero]
  putPos_eq := by
    change c.offset + (c.setPut 0).put.next = c.offset
    rw [next_setPut, Nat.zero_min, Nat.add_zero]

theorem windowLength_le {offset total : Nat} (len : Nat) (h : offset ≤ total) :
    offset + View.windowLength offset len total ≤ total := by
  unfold View.windowLength
  split <;> omega

/-- The window that a slide makes: what was asked, a page at least and the rest of the mapping at
most. -/
theorem windowLength_slide [Paging] (offset n total : Nat) :
    View.windowLength offset (max n pageSize) total = min (max n pageSize) (total - offset) := by
  have := pageSize_pos
  unfold View.windowLength
  split <;> omega

/-- A slide to a position puts both cursors there. Where it is granted the window is there; where it
is refused there is none. -/
theorem Framed.slide [Paging] (h : c.Framed i o) {pos : Nat} (hpos : pos ≤ o.length) (n : Nat) :
    ∃ r d, Mapped.slide { c with offset := pos } n = (r, d) ∧ d.At i o pos ∧ Keeps c d ∧
      d.error = c.dropWindow.error ∧ (c.LatchesSync → d.LatchesSync) ∧ d.Bare ∧
      ((r = .ok () ∧ d.get.available = min (max n pageSize) (o.length - pos) ∧
          d.put.available = min (max n pageSize) (o.length - pos)) ∨
        (∃ e, r = .error e) ∧ d.get = .empty ∧ d.put = .empty ∧ ¬c.table.GrantsNext o) := by
  have hover : Over { c with offset := pos } i o := ⟨h.holds, h.opened, hpos⟩
  unfold Mapped.slide
  generalize hc' : Mapped.dropWindow { c with offset := pos } = c'
  have hdrop : c'.At i o pos := hc' ▸ hover.dropWindow
  obtain rfl : c'.offset = pos := hc' ▸ rfl
  have hget : c'.get = .empty := hc' ▸ rfl
  have hput : c'.put = .empty := hc' ▸ rfl
  have hnone : c'.view.window = none := hc' ▸ rfl
  have herr : c'.error = c.dropWindow.error := hc' ▸ rfl
  have hkeeps : Keeps c c' := hc' ▸ keeps_dropWindow c _
  have hasked' : c'.table.windowsAsked = c.table.windowsAsked :=
    hc' ▸ View.windowsAsked_sync c.view c.table
  have hsync (hc : c.LatchesSync) : c'.LatchesSync := hc' ▸ LatchesSync.dropWindow hc
  dsimp only
  rw [hdrop.size_eq]
  by_cases hend : o.length ≤ c'.offset
  · rw [if_pos hend]
    have hbare : c'.Bare := fun w hw => by
      rw [hnone] at hw
      cases hw
    refine ⟨_, _, rfl, hdrop, hkeeps, herr, hsync, hbare, .inl ⟨rfl, ?_⟩⟩
    rw [hget, hput, Nat.sub_eq_zero_of_le hend, Nat.min_zero]
    exact ⟨rfl, rfl⟩
  · rw [if_neg hend]
    obtain ⟨r, v, t, hremap, hlike, hasked, hcase⟩ := View.remap_spec (v := c'.view) hdrop.holds
      hdrop.opened (Nat.lt_of_not_le hend) (max n pageSize)
    have hover' : Over { c' with view := v, table := t } i o :=
      ⟨hdrop.holds, (hlike.opened i).trans hdrop.opened, hpos⟩
    have hbare : Bare { c' with view := v, table := t } := by
      intro w hw
      rcases hcase with ⟨-, rfl⟩ | ⟨-, rfl, -⟩
      · cases hw
        rfl
      · cases hw
    have hrenews : Renews c' { c' with view := v, table := t } :=
      ⟨hasked ▸ Nat.le_succ _, fun w hw => .inr ⟨hbare w hw, hasked ▸ Nat.lt_succ_self _⟩⟩
    have hkeeps' : Keeps c { c' with view := v, table := t } :=
      hkeeps.trans ⟨rfl, rfl, hlike, hrenews⟩
    have hsync' (hc : c.LatchesSync) : LatchesSync { c' with view := v, table := t } :=
      (hsync hc).congr hlike rfl
    rw [hremap]
    obtain ⟨rfl, rfl⟩ | ⟨⟨e, rfl⟩, rfl, hno⟩ := hcase
    · have hroom : (Region.clamped 0 0
          (View.windowLength c'.offset (max n pageSize) o.length)).available =
            min (max n pageSize) (o.length - c'.offset) := by
        rw [Region.available_clamped, Nat.sub_zero, windowLength_slide]
      exact ⟨_, _, rfl, hover'.window rfl (windowLength_le _ hpos),
        (hkeeps'.trans (keeps_setGet _ 0)).trans (keeps_setPut _ 0), herr, hsync',
        hbare, .inl ⟨rfl, hroom, hroom⟩⟩
    · exact ⟨_, _, rfl, hover'.unbound rfl hget hput, hkeeps', herr, hsync', hbare,
        .inr ⟨⟨e, rfl⟩, hget, hput, fun hg => hno (hkeeps.table.grantsNext hasked' hg)⟩⟩

end ByteChannel.Mapped
