import ByteChannel.Proofs.Mapped.Perform
import ByteChannel.Proofs.Mapping.Holders

/-!
# What the view in a channel holds

Every call on a channel asks for windows on the mapping of the channel only. Its view holds that
mapping from the first window that was granted on, and a call that is granted none changes no count
of holders. A seek never asks for a window.
-/

namespace ByteChannel.Mapped

variable {c c' c'' : Mapped}

/-- A channel after windows were asked for on its mapping. -/
structure Rebinds (c c' : Mapped) : Prop where
  mapping : c'.mapping = c.mapping
  view : View.Rebinds c.mapping c.view c.table c'.view c'.table

namespace Rebinds

theorem trans (h : Rebinds c c') (k : Rebinds c' c'') : Rebinds c c'' :=
  ⟨k.mapping.trans h.mapping, h.view.trans (h.mapping ▸ k.view)⟩

theorem of_eq (hm : c'.mapping = c.mapping) (hv : c'.view = c.view) (ht : c'.table = c.table) :
    Rebinds c c' := by
  refine ⟨hm, ?_⟩
  rw [hv, ht]
  exact View.rebinds_refl c.mapping c.view c.table

theorem refl (c : Mapped) : Rebinds c c := of_eq rfl rfl rfl

end Rebinds

theorem rebinds_dropWindow (c : Mapped) (pos : Nat) :
    Rebinds c (Mapped.dropWindow { c with offset := pos }) :=
  ⟨rfl, (View.rebinds_sync c.mapping c.view c.table).trans (View.rebinds_unmap _ _ _)⟩

theorem rebinds_slide [Paging] (c : Mapped) (pos n : Nat) :
    Rebinds c (Mapped.slide { c with offset := pos } n).2 := by
  have hdrop := rebinds_dropWindow c pos
  unfold slide
  generalize Mapped.dropWindow { c with offset := pos } = d at hdrop ⊢
  dsimp only
  split
  · exact hdrop
  · have hremap := (View.rebinds_remap d.view d.table d.mapping d.offset (max n pageSize)).1
    split
    · exact hdrop.trans ⟨rfl, hremap⟩
    · exact hdrop.trans ⟨rfl, hremap⟩

theorem rebinds_reserveGet [Paging] (c : Mapped) (n : Nat) : Rebinds c (c.reserveGet n).2 := by
  unfold reserveGet
  split
  · exact .refl c
  · split
    · exact rebinds_slide c _ n
    · exact .refl c

theorem rebinds_reservePut [Paging] (c : Mapped) (n : Nat) : Rebinds c (c.reservePut n).2 := by
  unfold reservePut
  split
  · exact .refl c
  · split
    · exact .refl c
    · split
      · exact rebinds_slide c _ n
      · exact .refl c

theorem rebinds_read [Paging] (c : Mapped) (n : Nat) : Rebinds c (c.read n).2 := by
  unfold read
  split
  · exact .refl c
  · have htake : Rebinds c (c.takeWindow n).2 := .of_eq rfl rfl rfl
    dsimp only
    split
    · exact htake.trans (.of_eq rfl rfl rfl)
    · have hreserve := rebinds_reserveGet (c.takeWindow n).2 (n - min n c.get.available)
      split
      · exact (htake.trans hreserve).trans (.of_eq rfl rfl rfl)
      · exact (htake.trans hreserve).trans (.of_eq rfl rfl rfl)

theorem rebinds_peek [Paging] (c : Mapped) : Rebinds c c.peek.2 := by
  unfold peek
  split
  · exact .refl c
  · split
    · exact .refl c
    · split
      · have hslide := rebinds_slide c (c.offset + c.get.limit) 0
        dsimp only
        split
        · exact hslide.trans (.of_eq rfl rfl rfl)
        · exact hslide
      · exact .refl c

theorem rebinds_readByte [Paging] (c : Mapped) : Rebinds c c.readByte.2 := by
  have hpeek := rebinds_peek c
  unfold readByte
  dsimp only
  split
  · exact hpeek.trans (.of_eq rfl rfl rfl)
  · exact hpeek

theorem rebinds_store [Paging] (c : Mapped) (bs : Bytes) : Rebinds c (c.store bs) := by
  unfold store
  split
  · exact .refl c
  · split
    · next r hr => exact ⟨rfl, View.rebinds_store? c.mapping hr⟩
    · exact .of_eq rfl rfl rfl

theorem rebinds_writeByte [Paging] (c : Mapped) (b : UInt8) : Rebinds c (c.writeByte b).2 := by
  unfold writeByte
  split
  · exact .of_eq rfl rfl rfl
  · split
    · exact rebinds_store c [b]
    · dsimp only
      split
      · exact rebinds_dropWindow c _
      · have hslide := rebinds_slide c (c.offset + c.put.limit) 0
        split
        · exact hslide.trans (.of_eq rfl rfl rfl)
        · split
          · exact hslide
          · exact hslide.trans (rebinds_store _ [b])

theorem rebinds_write [Paging] (c : Mapped) (src : Bytes) : Rebinds c (c.write src).2 := by
  unfold write
  split
  · exact .of_eq rfl rfl rfl
  · split
    · exact (rebinds_store c src).trans (.of_eq rfl rfl rfl)
    · split
      · exact rebinds_dropWindow c c.size
      · have hreserve := rebinds_reservePut c src.length
        dsimp only
        split
        · exact hreserve.trans (.of_eq rfl rfl rfl)
        · exact (hreserve.trans (rebinds_store _ _)).trans (.of_eq rfl rfl rfl)

theorem rebinds_flush (c : Mapped) : Rebinds c c.flush.2 := by
  have hsync := View.rebinds_sync c.mapping c.view c.table
  unfold flush
  dsimp only
  split
  · exact ⟨rfl, hsync⟩
  · exact ⟨rfl, hsync⟩
  · exact ⟨rfl, hsync⟩

/-! ## Seeking -/

theorem rebinds_reconcile (c : Mapped) (side : Side) : Rebinds c (c.reconcile side) := by
  unfold reconcile
  split
  · exact .refl c
  · split
    · exact .of_eq rfl rfl rfl
    · exact .of_eq rfl rfl rfl

theorem rebinds_seek (c : Mapped) (o : Origin) (side : Side) : Rebinds c (c.seek o side).2 := by
  unfold seek
  split
  · exact .refl c
  · have hjoin := rebinds_reconcile c side
    dsimp only
    split
    · exact hjoin
    · split
      · exact hjoin.trans (.of_eq rfl rfl rfl)
      · exact hjoin.trans (rebinds_dropWindow _ _)

/-- No window is asked for. -/
theorem windowsAsked_seek (c : Mapped) (o : Origin) (side : Side) :
    (c.seek o side).2.table.windowsAsked = c.table.windowsAsked := by
  have hjoin : (c.reconcile side).table = c.table := by
    unfold reconcile
    split
    · rfl
    · split <;> rfl
  unfold seek
  split
  · rfl
  · dsimp only
    split
    · exact congrArg MapTable.windowsAsked hjoin
    · split
      · exact congrArg MapTable.windowsAsked hjoin
      · exact (View.windowsAsked_sync _ _).trans (congrArg MapTable.windowsAsked hjoin)

/-! ## Any call -/

theorem rebinds_performOp [Paging] (c : Mapped) (op : Op) : Rebinds c (c.performOp op).2 := by
  cases op with
  | read n => exact rebinds_read c n
  | readByte => exact rebinds_readByte c
  | reserveGet n => exact rebinds_reserveGet c n
  | reservePut n => exact rebinds_reservePut c n
  | write src => exact rebinds_write c src
  | writeByte b => exact rebinds_writeByte c b
  | seek o side => exact rebinds_seek c o side

theorem rebinds_tryRead [Paging] (c : Mapped) (n : Nat) : Rebinds c (c.tryRead n).2 := by
  have hread := rebinds_read c n
  unfold tryRead
  split
  · exact .refl c
  · dsimp only
    split
    · split
      · exact hread.trans (.of_eq rfl rfl rfl)
      · exact hread
    · exact hread

theorem rebinds_tryWrite [Paging] (c : Mapped) (src : Bytes) : Rebinds c (c.tryWrite src).2 := by
  have hwrite := rebinds_write c src
  unfold tryWrite
  dsimp only
  split
  · exact hwrite.trans (.of_eq rfl rfl rfl)
  · exact hwrite

theorem rebinds_perform [Paging] (c : Mapped) (call : Call) : Rebinds c (c.perform call).2 := by
  cases call with
  | act a =>
    cases a with
    | op op => exact rebinds_performOp c op
    | peek => exact rebinds_peek c
    | flush => exact rebinds_flush c
  | takeError => exact .of_eq rfl rfl rfl
  | tryRead n => exact rebinds_tryRead c n
  | tryWrite src => exact rebinds_tryWrite c src
  | tryFlush => exact rebinds_flush c
  | trySeek o => exact rebinds_seek c o .both

/-! ## Opening and closing -/

open MapTable (Passes)

/-- A closed channel was opened over a mapping, or nothing changed. `made` mappings were made so
far. -/
def Starts (c : Mapped) (m : Mapping) (made : Nat) (r : Except ChannelError Unit × Mapped) : Prop :=
  (∃ e, r = (.error e, c)) ∨
    ∃ d, r = (.ok (), d) ∧ c.mapping.holds = none ∧ d.mapping = m ∧
      d.view.attached = c.view.attached ∧ d.table.openings.length = made ∧
      Passes c.table none d.table m.holds

theorem not_holding_of_refusal? {mode : OpenMode} (h : c.refusal? mode = none) :
    c.mapping.holds = none := by
  unfold refusal? at h
  split at h
  · cases h
  · next hopen => simpa [isOpen, Mapping.isOpen] using hopen

theorem openings_start (c : Mapped) (m : Mapping) (mode : OpenMode) :
    (c.start m mode).table.openings = c.table.openings :=
  View.openings_sync c.view c.table

theorem passes_start {held held' : Option Nat} {t : MapTable} (h : Passes t held c.table held')
    (m : Mapping) (mode : OpenMode) : Passes t held (c.start m mode).table held' :=
  h.trans (MapTable.passes_of_eq (MapTable.holders_eq_of_openings (openings_start c m mode)))

theorem starts_openWide (c : Mapped) (path : Except ChannelError String) (mode : OpenMode)
    (keepPrivate : Bool) :
    Starts c ⟨some c.table.openings.length⟩ (c.table.openings.length + 1)
      (c.openWide path mode keepPrivate) := by
  unfold openWide
  cases hr : c.refusal? mode with
  | some e => exact .inl ⟨e, rfl⟩
  | none =>
    cases path with
    | error e => exact .inl ⟨e, rfl⟩
    | ok path =>
      simp only [openPath, hr]
      obtain ⟨e, hopen⟩ | ⟨t, hopen, hlen, hpasses⟩ :=
        MapTable.makes_openPath c.table path (.forChannel mode keepPrivate)
      · rw [hopen]
        exact .inl ⟨e, rfl⟩
      · rw [hopen]
        refine .inr ⟨_, rfl, not_holding_of_refusal? hr, rfl, rfl, ?_, ?_⟩
        · rw [openings_start]
          exact hlen
        · exact passes_start (c := { c with table := t }) hpasses _ mode

theorem starts_attach (c : Mapped) (m : Mapping) (mode : OpenMode)
    (hm : ∀ i, m.holds = some i → ∃ o, c.table.opening? i = some o) :
    Starts c m c.table.openings.length (c.attach m mode) := by
  unfold attach
  cases hr : c.refusal? mode with
  | some e => exact .inl ⟨e, rfl⟩
  | none =>
    dsimp only
    split
    · exact .inl ⟨_, rfl⟩
    · split
      · exact .inl ⟨_, rfl⟩
      · have hpasses := MapTable.passes_clone hm
        refine .inr ⟨_, rfl, not_holding_of_refusal? hr, rfl, rfl, ?_, ?_⟩
        · rw [openings_start]
          exact MapTable.length_openings_of_opened (MapTable.like_clone m c.table).opened
        · exact passes_start (c := { c with table := (m.clone c.table).2 }) hpasses _ mode

theorem holds_close (c : Mapped) : c.close.2.mapping.holds = none := by
  unfold close
  by_cases hopen : c.isOpen = false
  · rw [if_pos hopen]
    simpa [isOpen, Mapping.isOpen] using hopen
  · rw [if_neg hopen]
    rfl

/-- A closed channel gives up its view, then its handle. -/
structure Stops (c d : Mapped) : Prop where
  mapping : d.mapping = {}
  view : d.view.attached = none
  made : d.table.openings.length = c.table.openings.length
  passes : ∃ t, Passes c.table c.view.attached t none ∧ Passes t c.mapping.holds d.table none

theorem stops_close (c : Mapped) (h : c.mapping.holds = none → c.view.attached = none) :
    Stops c c.close.2 := by
  unfold close
  by_cases hopen : c.isOpen = false
  · rw [if_pos hopen]
    have hm : c.mapping.holds = none := by simpa [isOpen, Mapping.isOpen] using hopen
    refine ⟨congrArg Mapping.mk hm, h hm, rfl, c.table, ?_, ?_⟩
    · rw [h hm]
      exact .refl c.table none
    · rw [hm]
      exact .refl c.table none
  · rw [if_neg hopen]
    have hlike := (MapTable.like_release c.table c.view.attached).trans
      (MapTable.like_release _ c.mapping.holds)
    exact ⟨rfl, rfl, MapTable.length_openings_of_opened hlike.opened, _,
      MapTable.passes_release _ _, MapTable.passes_release _ _⟩

theorem stops_discard (c : Mapped) (h : c.mapping.holds = none → c.view.attached = none) :
    Stops c c.discard := by
  unfold discard
  by_cases hopen : c.isOpen = true
  · rw [if_pos hopen]
    obtain ⟨hm, hv, hmade, t, hview, hmapping⟩ :=
      stops_close { c with table := (c.view.sync c.table).2 } h
    have hsync := View.openings_sync c.view c.table
    refine ⟨hm, hv, hmade.trans (congrArg List.length hsync), t, ?_, hmapping⟩
    exact (MapTable.passes_of_eq (MapTable.holders_eq_of_openings hsync)).trans hview
  · have hclosed : c.close = (false, c) := if_pos (Bool.eq_false_iff.2 hopen)
    rw [if_neg hopen]
    have hstops := stops_close c h
    rwa [hclosed] at hstops

end ByteChannel.Mapped
