import ByteChannel.Proofs.Buffered.Call
import ByteChannel.Proofs.Buffered.Coherent

/-!
# Every call keeps the regions coherent

One lemma for each operation, and from them that no run of calls breaks a channel, whatever its
device does.
-/

namespace ByteChannel.Buffered

variable {σ : Type} [Device σ]

/-! ## Input -/

theorem Coherent.turnToInput {c : Buffered σ} (h : Coherent c) (ho : c.isOpen = true)
    (hr : c.mode.isReadable = true) : Inward c.turnToInput := by
  unfold Buffered.turnToInput
  by_cases hp : 0 < c.put.consumed
  · have hs := sameRegions_writePending c
    have hc := h.congr hs
    rw [if_pos hp]
    exact hc.inward (hs.isOpen.trans ho) (by rw [hs.mode, hr])
  · rw [if_neg hp]
    exact h.inward ho hr

theorem Inward.takeFresh {c : Buffered σ} (h : Inward c) (hcell : c.onCell = false) (n : Nat) :
    Inward (c.takeFresh n).2 := by
  unfold Buffered.takeFresh
  by_cases hn : n = 0
  · rw [if_pos hn]
    exact h
  · rw [if_neg hn]
    by_cases hl : n < c.buffer.length
    · rw [if_pos hl]
      exact inward_refill h.isOpen h.readable h.put hcell _
    · rw [if_neg hl]
      have hd := h.congr (sameRegions_readDirect c n)
      exact ⟨hd.isOpen, hd.readable, hd.put, rfl, fun _ => rfl, fun _ => Nat.zero_le 1,
        Nat.zero_le _⟩

theorem Coherent.read {c : Buffered σ} (h : Coherent c) (n : Nat) : Coherent (c.read n).2 := by
  unfold Buffered.read
  by_cases hn : n = 0 ∨ c.canRead = false
  · rw [if_pos hn]
    exact h
  · rw [if_neg hn]
    obtain ⟨_, hr⟩ := not_or.1 hn
    simp only [canRead, Bool.not_eq_false, Bool.and_eq_true] at hr
    obtain ⟨hin, hcell⟩ := ((h.pushedBack false).turnToInput hr.1 hr.2).takeCell
    exact ((hin.bump _).takeFresh hcell _).coherent

theorem Coherent.peek {c : Buffered σ} (h : Coherent c) : Coherent c.peek.2 := by
  unfold Buffered.peek
  by_cases hr : c.canRead = false
  · rw [if_pos hr]
    exact h
  rw [if_neg hr]
  simp only [canRead, Bool.not_eq_false, Bool.and_eq_true] at hr
  by_cases ha : 0 < c.get.available
  · rw [if_pos ha]
    exact h
  rw [if_neg ha]
  by_cases hparked : c.onCell = true ∧ 0 < c.filled
  · rw [if_pos hparked]
    have hput : c.put.isCollapsed = true := by
      apply h.isCollapsed_of_unread
      simp only [unreadCount, if_pos hparked.1]
      omega
    exact ⟨rfl, h.put_base, fun _ => Region.limit_clamped _ _, fun hc => (by cases hc), h.filled_le,
      h.put_limit, fun hc => (by rw [hput] at hc; cases hc), h.closed,
      fun hc => (by rw [hr.2] at hc; cases hc), h.no_output⟩
  rw [if_neg hparked]
  by_cases hb : c.buffer = []
  · rw [if_pos hb]
    have hs := sameRegions_readDirect { c with filled := 0 } 1
    have hput := h.isCollapsed_of_nil hb
    have hl := length_readDirect_le { c with filled := 0 } 1
    exact {
      get_base := rfl
      put_base := by rw [hs.put]; exact h.put_base
      get_limit := fun hc => by cases hc
      cell_limit := fun _ => by rw [Region.limit_clamped]; exact hl
      filled_le := by rw [hs.filled]; exact Nat.zero_le _
      put_limit := fun hc => by rw [hs.put, hput] at hc; cases hc
      exclusive := fun hc => by rw [hs.put, hput] at hc; cases hc
      closed := fun hc => hs.mode.trans (h.closed (hs.isOpen.symm.trans hc))
      no_input := fun hc => by rw [hs.mode, hr.2] at hc; cases hc
      no_output := by rw [hs.mode, hs.put]; exact h.no_output }
  rw [if_neg hb]
  have hin := h.turnToInput hr.1 hr.2
  exact (inward_refill (c := { c.turnToInput with onCell := false }) hin.isOpen hin.readable hin.put
    rfl 0).coherent

theorem Coherent.readByte {c : Buffered σ} (h : Coherent c) : Coherent c.readByte.2 := by
  have hp := h.peek
  unfold Buffered.readByte
  rcases hr : c.peek with ⟨_ | b, c'⟩
  · rw [hr] at hp
    exact hp
  · rw [hr] at hp
    exact hp.advance 1

theorem Coherent.peekChunk {c : Buffered σ} (h : Coherent c) : Coherent c.peekChunk.2 := by
  have hp := h.peek
  unfold Buffered.peekChunk
  by_cases ha : c.get.available = 0
  · rw [if_pos ha]
    rcases hr : c.peek with ⟨_ | b, c'⟩
    · rw [hr] at hp
      cases he : c'.error with
      | none =>
        simp only [he]
        exact hp
      | some e =>
        simp only [he]
        exact ⟨hp.1, hp.2, hp.3, hp.4, hp.5, hp.6, hp.7, hp.8, hp.9, hp.10⟩
    · rw [hr] at hp
      exact hp
  · rw [if_neg ha]
    exact h

theorem Coherent.fill {c : Buffered σ} (h : Coherent c) (n : Nat) : Coherent (c.fill n).2 := by
  have hp := h.peekChunk
  unfold Buffered.fill
  rcases hr : c.peekChunk with ⟨e | bs, c'⟩
  · rw [hr] at hp
    exact hp
  · rw [hr] at hp
    exact hp.advance _

/-! ## Output -/

theorem Coherent.overflow {c : Buffered σ} (h : Coherent c) (b : UInt8) :
    Coherent (c.overflow b).2 := by
  unfold Buffered.overflow
  by_cases hw : c.canWrite = false
  · rw [if_pos hw]
    exact h
  rw [if_neg hw]
  simp only [canWrite, Bool.not_eq_false, Bool.and_eq_true] at hw
  by_cases hb : c.buffer = []
  · rw [if_pos hb]
    exact h.yieldInput.1.coherent.congr (sameRegions_writeDirect _ _)
  rw [if_neg hb, h.sync_openPut]
  obtain ⟨hs, hp⟩ := h.sync
  have hopen : Coherent c.sync.2.openPut :=
    hs.coherent.openPut (by rw [hs.mode]; exact hw.2) hs.unreadCount
  by_cases hr : c.sync.1 = true
  · simp only [if_pos hr]
    apply hopen.place
    rw [hs.coherent.put_openPut hp, wholeBuffer, Region.available_clamped, hs.buffer]
    exact List.length_pos_iff.2 hb
  · simp only [if_neg hr]
    exact hopen

theorem Coherent.writeByte {c : Buffered σ} (h : Coherent c) (b : UInt8) :
    Coherent (c.writeByte b).2 := by
  unfold Buffered.writeByte
  by_cases hw : 0 < c.put.available ∧ c.canWrite = true
  · rw [if_pos hw]
    have hb : [b].length ≤ c.put.available := hw.1
    exact (h.place hb).pushedBack false
  · rw [if_neg hw]
    exact h.overflow b

theorem Coherent.store {c : Buffered σ} (h : Coherent c) (src : Bytes) :
    Coherent (c.store src).2 := by
  fun_induction Buffered.store c src with
  | case1 => exact h
  | case2 c b bs ha k more ih =>
    apply ih
    apply h.place
    rw [List.length_take]
    exact Nat.le_trans (Nat.min_le_left _ _) (Nat.min_le_left _ _)
  | case3 c b bs ha r hr more ih => exact ih (h.overflow b)
  | case4 c b bs ha r hr => exact h.overflow b

theorem Coherent.write {c : Buffered σ} (h : Coherent c) (src : Bytes) :
    Coherent (c.write src).2 := by
  unfold Buffered.write
  by_cases hw : c.canWrite = false
  · rw [if_pos hw]
    exact h
  rw [if_neg hw]
  simp only [canWrite, Bool.not_eq_false, Bool.and_eq_true] at hw
  have hp := h.pushedBack false
  by_cases hl : c.buffer.length < src.length
  · simp only [if_pos hl]
    have hsync := hp.sync.1.coherent
    rcases hd : Buffered.sync { c with pushedBack := false } with ⟨_ | _, c'⟩
    · rw [hd] at hsync
      exact hsync
    · rw [hd] at hsync
      exact hsync.congr (sameRegions_writeDirect _ _)
  simp only [if_neg hl]
  obtain ⟨hc, _⟩ := hp.yieldInput
  change Coherent (Buffered.store (if ({ c with pushedBack := false }.yieldInput).buffer = []
    then { c with pushedBack := false }.yieldInput
    else { c with pushedBack := false }.yieldInput.openPut) src).2
  apply Coherent.store
  by_cases hb : ({ c with pushedBack := false }.yieldInput).buffer = []
  · rw [if_pos hb]
    exact hc.coherent
  · rw [if_neg hb]
    exact hc.coherent.openPut (by rw [hc.mode]; exact hw.2) hc.unreadCount

/-! ## Sessions -/

/-- The channel over a device that stands where the mode starts. -/
def openedOver (c : Buffered σ) (d : σ) (mode : OpenMode) : Buffered σ :=
  let text := !mode.binary && c.settings.textPolicy.translates
  { c with
    device := some d
    buffer := if c.adopted then c.buffer else List.replicate c.settings.bufferSize 0
    text := text
    expander := if text && mode.isWritable then some .standard else none
    mode := mode
    error := none
    pushedBack := false }.reset

/-- A closed channel is opened once its device has been moved, where the mode starts at the end. -/
theorem attach_inv {c c' : Buffered σ} {d : σ} {mode : OpenMode} (h : c.attach d mode = .ok c') :
    c.isOpen = false ∧ ∃ pos d',
      (if mode.startsAtEnd then Device.seek d (.finish 0) else (.ok 0, d)) = (.ok pos, d') ∧
        c' = c.openedOver d' mode := by
  unfold attach at h
  by_cases ho : c.isOpen = true
  · rw [if_pos ho] at h
    cases h
  rw [if_neg ho] at h
  rcases hd : (if mode.startsAtEnd then Device.seek d (.finish 0) else (.ok 0, d))
    with ⟨e | pos, d'⟩
  · simp only [hd] at h
    cases h
  · simp only [hd] at h
    cases h
    exact ⟨by simpa using ho, pos, d', rfl, rfl⟩

theorem coherent_attach {c c' : Buffered σ} {d : σ} {mode : OpenMode}
    (h : c.attach d mode = .ok c') : Coherent c' := by
  obtain ⟨-, _, _, -, rfl⟩ := attach_inv h
  exact coherent_reset fun hn => by cases hn

theorem Coherent.installBuffer {c : Buffered σ} (h : Coherent c) (buffer : Bytes) :
    Coherent (c.installBuffer buffer).2 := by
  unfold Buffered.installBuffer
  by_cases hu : c.unreadCount ≠ 0
  · rw [if_pos hu]
    exact h
  rw [if_neg hu]
  have hs : Coherent (if c.isOpen then c.sync else (true, c)).2 := by
    by_cases ho : c.isOpen = true
    · rw [if_pos ho]
      exact h.sync.1.coherent
    · rw [if_neg ho]
      exact h
  rcases hd : (if c.isOpen then c.sync else (true, c)) with ⟨_ | _, c'⟩
  · rw [hd] at hs
    exact hs.congr (sameRegions_flushError c')
  · rw [hd] at hs
    exact coherent_reset hs.closed

theorem Coherent.flush {c : Buffered σ} (h : Coherent c) : Coherent c.flush.2 := by
  unfold Buffered.flush
  by_cases ho : c.isOpen = false
  · rw [if_pos ho]
    exact h
  rw [if_neg ho]
  have hs := h.sync.1.coherent
  rcases hd : c.sync with ⟨_ | _, c'⟩
  · rw [hd] at hs
    exact hs.congr (sameRegions_flushError c')
  · rw [hd] at hs
    exact hs

theorem Coherent.seek {c : Buffered σ} (h : Coherent c) (o : Origin) : Coherent (c.seek o).2 := by
  unfold Buffered.seek
  by_cases ho : c.isOpen = false
  · rw [if_pos ho]
    exact h
  rw [if_neg ho]
  have hs := (h.pushedBack false).sync.1.coherent
  rcases hd : Buffered.sync { c with pushedBack := false } with ⟨_ | _, c'⟩
  · rw [hd] at hs
    exact hs.congr (sameRegions_flushError c')
  · rw [hd] at hs
    cases hdev : c'.device with
    | none =>
      simp only [hdev]
      exact hs
    | some d =>
      simp only [hdev]
      refine hs.congr ?_
      constructor <;> simp [isOpen, hdev]

theorem Coherent.close {c : Buffered σ} (h : Coherent c) : Coherent c.close.2.1 := by
  unfold Buffered.close
  by_cases ho : c.isOpen = false
  · rw [if_pos ho]
    exact h
  rw [if_neg ho]
  cases hd : c.flush.2.device with
  | none =>
    simp only [hd]
    exact coherent_reset fun _ => rfl
  | some d =>
    simp only [hd]
    exact coherent_reset fun _ => rfl

/-! ## Runs -/

theorem Coherent.perform {c : Buffered σ} (h : Coherent c) (call : Call) :
    Coherent (c.perform call).2 := by
  cases call with
  | read n => exact h.read n
  | readByte => exact h.readByte
  | peek => exact h.peek
  | fill n => exact h.fill n
  | unread b => exact h.unread b
  | write src => exact h.write src
  | writeByte b => exact h.writeByte b
  | overflow b => exact h.overflow b
  | flush => exact h.flush
  | seek o => exact h.seek o
  | tell => exact h.seek _
  | install buffer => exact h.installBuffer buffer
  | resize n => exact h.installBuffer _

end ByteChannel.Buffered
