import ByteChannel.Proofs.Mapped.Transfer

/-!
# Opening a mapped channel

The ways to open a channel over a mapping as data. Whatever the channel was before, it starts at the
beginning of its mapping without a window.
-/

namespace ByteChannel.Mapped

variable {c c' : Mapped} {i : Nat} {o : Opening}

inductive Entry
  | path (path : String) (mode : OpenMode) (keepPrivate : Bool)
  | wide (path : Except ChannelError String) (mode : OpenMode) (keepPrivate : Bool)
  /-- Over a mapping that others hold too. -/
  | shared (m : Mapping) (mode : OpenMode)
  deriving Repr

def Entry.mode : Entry → OpenMode
  | .path _ mode _ => mode
  | .wide _ mode _ => mode
  | .shared _ mode => mode

def enter (c : Mapped) : Entry → Except ChannelError Unit × Mapped
  | .path path mode keepPrivate => c.openPath path mode keepPrivate
  | .wide path mode keepPrivate => c.openWide path mode keepPrivate
  | .shared m mode => c.attach m mode

theorem eq_start_of_openPath {path : String} {mode : OpenMode} {keepPrivate : Bool}
    (h : c.openPath path mode keepPrivate = (.ok (), c')) :
    ∃ (b : Mapped) (m : Mapping), c' = b.start m mode ∧
      (mode.isWritable = true → m.isWritable b.table = true) := by
  unfold openPath at h
  split at h
  · cases h
  · dsimp only at h
    split at h
    · cases h
    · next m hm =>
      cases h
      refine ⟨_, m, rfl, fun hw => ?_⟩
      rw [← MapMode.isWritable_forChannel mode keepPrivate] at hw
      exact (MapTable.isWritable_openPath (Prod.ext hm rfl)).trans hw

/-- Every way in ends in a start over a mapping that takes output if the channel does. -/
theorem eq_start_of_enter {entry : Entry} (h : c.enter entry = (.ok (), c')) :
    ∃ (b : Mapped) (m : Mapping), c' = b.start m entry.mode ∧
      (entry.mode.isWritable = true → m.isWritable b.table = true) := by
  cases entry with
  | path path mode keepPrivate => exact eq_start_of_openPath h
  | wide path mode keepPrivate =>
    simp only [enter, openWide] at h
    split at h
    · cases h
    · split at h
      · cases h
      · exact eq_start_of_openPath h
  | shared m mode =>
    simp only [enter, attach] at h
    split at h
    · cases h
    · split at h
      · cases h
      · split at h
        · cases h
        · next hrefused =>
          cases h
          refine ⟨_, m, rfl, fun hw => ?_⟩
          have hw : mode.isWritable = true := hw
          rw [hw, Bool.true_and, Bool.not_eq_true, Bool.not_eq_false'] at hrefused
          exact ((MapTable.like_clone m c.table).isWritable m).trans hrefused

/-- A channel that was opened is at the start of its mapping. Only the write-back of a window from
before can have failed. -/
theorem enter_at {entry : Entry} (h : c.enter entry = (.ok (), c'))
    (ho : c'.mapping.opening? c'.table = some o) :
    ∃ i, c'.At i o.plain 0 ∧ c'.LatchesSync ∧ c'.mode = entry.mode := by
  obtain ⟨b, m, rfl, -⟩ := eq_start_of_enter h
  obtain ⟨i, hi, hheld⟩ := Option.bind_eq_some_iff.1 ho
  have hlike : b.table.Like (b.start m entry.mode).table := View.like_sync _ _
  have hopened : (b.start m entry.mode).table.opened? i = some o.plain := by
    rw [MapTable.opened?, hheld]
    rfl
  have hover : Over { b with mapping := m, mode := entry.mode, offset := 0, error := none } i
      o.plain :=
    ⟨hi, (hlike.opened i).symm.trans hopened, Nat.zero_le _⟩
  exact ⟨i, hover.dropWindow, latchesSync_none.dropWindow, rfl⟩

/-- A channel for output is over a mapping that takes output. -/
theorem enter_writes {entry : Entry} (h : c.enter entry = (.ok (), c'))
    (ho : c'.mapping.opening? c'.table = some o) (hw : entry.mode.isWritable = true) :
    o.mode ≠ .readOnly := by
  obtain ⟨b, m, rfl, hwrites⟩ := eq_start_of_enter h
  have hlike : b.table.Like (b.start m entry.mode).table := View.like_sync _ _
  have hm : m.opening? (b.start m entry.mode).table = some o := ho
  have hmode := (hlike.isWritable m).trans (hwrites hw)
  simp only [Mapping.isWritable, Mapping.mode?, hm, Option.map_some, Option.getD_some,
    MapMode.isWritable, bne_iff_ne] at hmode
  exact hmode

theorem enter_bare {entry : Entry} (h : c.enter entry = (.ok (), c')) : c'.Bare := by
  obtain ⟨b, m, rfl, -⟩ := eq_start_of_enter h
  intro w hw
  cases hw

end ByteChannel.Mapped
