import ByteChannel.Mapped.Stream

/-!
# Mapped channels never ask to be called again

A channel over a mapping obeys the laws of devices. It moves no more than it was asked
to. None of the failures that it latches by itself is an interruption, so an interrupted
transfer can only report a failure latched before, and does so once.
-/

namespace ByteChannel.Mapped

/-- No interruption. -/
def Lasting (error : Option ChannelError) : Prop :=
  ∀ e, error = some e → e.toIoError.kind ≠ .interrupted

theorem lasting_none : Lasting none := fun _ h => nomatch h

theorem lasting_or {a b : Option ChannelError} (ha : Lasting a) (hb : Lasting b) :
    Lasting (a.or b) := by
  cases a with
  | none => exact hb
  | some e => exact ha

theorem lasting_some {e : ChannelError} (h : e.toIoError.kind ≠ .interrupted) :
    Lasting (some e) := by
  intro e' he
  cases he
  exact h

/-- What `d` has latched beyond `c` is no interruption. -/
def LatchesAfter (c d : Mapped) : Prop := ∃ x, Lasting x ∧ d.error = c.error.or x

theorem latchesAfter_of_eq {c d : Mapped} (h : d.error = c.error) : LatchesAfter c d :=
  ⟨none, lasting_none, by simp [h]⟩

theorem LatchesAfter.trans {c d e : Mapped} (h : LatchesAfter c d) (k : LatchesAfter d e) :
    LatchesAfter c e := by
  obtain ⟨x, hx, hd⟩ := h
  obtain ⟨y, hy, he⟩ := k
  exact ⟨x.or y, lasting_or hx hy, by rw [he, hd, Option.or_assoc]⟩

theorem latchesAfter_latch (c : Mapped) {x : Option ChannelError} (h : Lasting x) :
    LatchesAfter c (c.latch x) := ⟨x, h, rfl⟩

theorem lasting_failure?_sync (v : View) (t : MapTable) : Lasting (failure? (v.sync t).1) := by
  unfold View.sync
  dsimp only
  split
  · split
    · exact lasting_some (by simp [ChannelError.toIoError])
    · exact lasting_none
  · exact lasting_none

theorem lasting_denies (o : Opening) : Lasting ((MapTable.denies o).map .io) := by
  unfold MapTable.denies
  split
  · exact lasting_some (by decide)
  · split
    · exact lasting_some (by decide)
    · exact lasting_none

theorem lasting_askWindow (t : MapTable) (o : Opening) : Lasting ((t.askWindow o).1.map .io) := by
  unfold MapTable.askWindow
  have h := lasting_denies o
  cases hd : MapTable.denies o with
  | some e => simpa [hd] using h
  | none =>
    simp only [Option.none_or]
    split
    · exact lasting_some (by decide)
    · exact lasting_none

theorem lasting_failure?_remap (v : View) (t : MapTable) (m : Mapping) (offset len : Nat) :
    Lasting (failure? (v.remap t m offset len).1) := by
  unfold View.remap
  dsimp only
  split
  · next i o _ _ =>
    split
    · exact lasting_some (by simp [ChannelError.toIoError])
    · have h := lasting_askWindow t o
      split
      · next e he =>
        rw [he] at h
        exact h
      · exact lasting_none
  · exact lasting_some (by decide)

theorem latchesAfter_dropWindow (c : Mapped) : LatchesAfter c c.dropWindow :=
  ⟨_, lasting_failure?_sync c.view c.table, rfl⟩

/-- One interruption lies ahead if one is latched. -/
def patience (c : Mapped) : Nat :=
  match c.error with
  | some e => if e.toIoError.kind = .interrupted then 1 else 0
  | none => 0

theorem patience_eq_one {c d : Mapped} (h : LatchesAfter c d) {e : ChannelError}
    (he : d.error = some e) (hk : e.toIoError.kind = .interrupted) : c.patience = 1 := by
  obtain ⟨x, hx, hd⟩ := h
  unfold patience
  cases hc : c.error with
  | none =>
    rw [hc, Option.none_or] at hd
    exact absurd hk (hx e (hd ▸ he))
  | some e' =>
    rw [hc, Option.some_or, he, Option.some.injEq] at hd
    simp [← hd, hk]

theorem failure?_map {ε α β : Type} (f : α → β) (r : Except ε α) :
    failure? (r.map f) = failure? r := by
  cases r <;> rfl

variable [Paging]

theorem latchesAfter_slide (c : Mapped) (n : Nat) :
    LatchesAfter c (c.slide n).2 ∧ Lasting (failure? (c.slide n).1) := by
  have hd := latchesAfter_dropWindow c
  unfold slide
  dsimp only
  split
  · exact ⟨hd, lasting_none⟩
  · have h := lasting_failure?_remap c.dropWindow.view c.dropWindow.table c.dropWindow.mapping
      c.dropWindow.offset (max n pageSize)
    split
    · next e he =>
      rw [he] at h
      exact ⟨hd, h⟩
    · exact ⟨hd, lasting_none⟩

theorem latchesAfter_reserveGet (c : Mapped) (n : Nat) :
    LatchesAfter c (c.reserveGet n).2 ∧ Lasting (failure? (c.reserveGet n).1) := by
  unfold reserveGet
  split
  · exact ⟨latchesAfter_of_eq rfl, lasting_some (by decide)⟩
  · split
    · have h := latchesAfter_slide { c with offset := c.offset + c.get.consumed } n
      exact ⟨h.1, by rw [failure?_map]; exact h.2⟩
    · exact ⟨latchesAfter_of_eq rfl, lasting_none⟩

theorem latchesAfter_reservePut (c : Mapped) (n : Nat) :
    LatchesAfter c (c.reservePut n).2 ∧ Lasting (failure? (c.reservePut n).1) := by
  unfold reservePut
  split
  · exact ⟨latchesAfter_of_eq rfl, lasting_some (by decide)⟩
  · split
    · exact ⟨latchesAfter_of_eq rfl, lasting_some (by decide)⟩
    · split
      · have h := latchesAfter_slide { c with offset := c.offset + c.put.consumed } n
        exact ⟨h.1, by rw [failure?_map]; exact h.2⟩
      · exact ⟨latchesAfter_of_eq rfl, lasting_none⟩

theorem latchesAfter_store (c : Mapped) (bs : Bytes) : LatchesAfter c (c.store bs) := by
  unfold store
  split
  · exact latchesAfter_of_eq rfl
  · split
    · exact latchesAfter_of_eq rfl
    · exact latchesAfter_latch c (lasting_some (by decide))

theorem latchesAfter_read (c : Mapped) (n : Nat) : LatchesAfter c (c.read n).2 := by
  unfold read
  split
  · exact latchesAfter_of_eq rfl
  · dsimp only
    split
    · exact latchesAfter_of_eq rfl
    · have h := latchesAfter_reserveGet (c.takeWindow n).2 (n - min n c.get.available)
      have hc : LatchesAfter c (c.takeWindow n).2 := latchesAfter_of_eq rfl
      split
      · next e he =>
        rw [he] at h
        exact (hc.trans h.1).trans (latchesAfter_latch _ h.2)
      · exact hc.trans h.1

theorem latchesAfter_write (c : Mapped) (src : Bytes) : LatchesAfter c (c.write src).2 := by
  unfold write
  split
  · exact latchesAfter_latch c (lasting_some (by decide))
  · split
    · exact latchesAfter_store c src
    · split
      · exact latchesAfter_dropWindow { c with offset := c.size }
      · have h := latchesAfter_reservePut c src.length
        dsimp only
        split
        · next e he =>
          rw [he] at h
          exact h.1.trans (latchesAfter_latch _ h.2)
        · exact h.1.trans (latchesAfter_store _ _)

theorem length_takeWindow_le (c : Mapped) (n : Nat) :
    (c.takeWindow n).1.length ≤ min n c.get.available := by
  have := View.length_range_le c.view c.table c.get.next (c.get.next + min n c.get.available)
  simp only [takeWindow]
  omega

theorem length_read_le (c : Mapped) (n : Nat) : (c.read n).1.length ≤ n := by
  have h := length_takeWindow_le c n
  unfold read
  split
  · exact Nat.zero_le _
  · dsimp only
    split
    · exact Nat.le_trans h (Nat.min_le_left _ _)
    · split
      · exact Nat.le_trans h (Nat.min_le_left _ _)
      · have := length_takeWindow_le ((c.takeWindow n).2.reserveGet (n - min n c.get.available)).2
          (n - min n c.get.available)
        simp only [List.length_append]
        omega

instance : Device Mapped where
  read := tryRead
  write := tryWrite
  seek := trySeek
  close := shut
  patience := patience
  length_read_le {c n bs} h := by
    unfold tryRead at h
    dsimp only at h
    repeat' split at h
    all_goals cases h
    · exact Nat.zero_le _
    · exact length_read_le c n
  patience_read_lt {c n e} h hk := by
    unfold tryRead at h ⊢
    dsimp only at h ⊢
    split at h
    · cases h
      cases hk
    · split at h
      · split at h
        · next hopen hmoved _ e' he =>
          cases h
          rw [if_neg hopen, if_pos hmoved, patience_eq_one (latchesAfter_read c n) he hk]
          exact Nat.zero_lt_one
        · cases h
      · cases h
  patience_write_lt {c src e} h hk := by
    unfold tryWrite at h ⊢
    dsimp only at h ⊢
    split at h
    · next hmoved =>
      rw [if_pos hmoved]
      cases he : (c.write src).2.error with
      | none =>
        rw [he] at h
        cases h
        cases hk
      | some e' =>
        rw [he] at h
        cases h
        rw [patience_eq_one (latchesAfter_write c src) he hk]
        exact Nat.zero_lt_one
    · cases h

end ByteChannel.Mapped
