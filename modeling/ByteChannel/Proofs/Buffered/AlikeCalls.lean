import ByteChannel.Proofs.Buffered.Alike

/-!
# No call tells alike channels apart

One lemma for each operation. Where an operation reads the buffer or the cell, what it reads is in
use; where it fills them, what it fills becomes the same.
-/

namespace ByteChannel.Buffered

variable {σ : Type} [Device σ] {c c' : Buffered σ}

namespace Alike

/-! ## Moving bytes -/

theorem readDirect (h : Alike c c') (n : Nat) : Matches (c.readDirect n) (c'.readDirect n) := by
  unfold Buffered.readDirect
  rw [h.device, h.text]
  cases c.device with
  | none => exact h.same []
  | some d =>
    obtain ⟨hsize, hfilled, hwaiting, hused⟩ := h
    refine Alike.same ?_ _
    exact .intro hsize hfilled hwaiting hused

theorem refill (h : Alike c c') : Alike c.refill c'.refill := by
  unfold Buffered.refill
  rw [h.device, h.text, h.size]
  cases c.device with
  | none =>
    obtain ⟨hsize, _, hwaiting, hused⟩ := h
    exact .intro hsize (.zero _ _) hwaiting hused
  | some d =>
    obtain ⟨hsize, _, hwaiting, hused⟩ := h
    refine .intro ?_ ?_ (hwaiting.overwrite_both hsize _) hused
    · simp only [latch, length_overwrite, hsize]
    · have hlaid := (SameTo.zero c.buffer _).overwrite_add hsize
        (receive d c.text c.buffer.length).1.bytes
      rwa [Nat.zero_add] at hlaid

theorem writeDirect (h : Alike c c') (src : Bytes) :
    Matches (c.writeDirect src) (c'.writeDirect src) := by
  have hexpander : c'.expander = c.expander := by
    cases h
    rfl
  unfold Buffered.writeDirect
  rw [h.device, h.mode, hexpander]
  cases c.device with
  | none => exact h.same 0
  | some d =>
    obtain ⟨hsize, hfilled, hwaiting, hused⟩ := h
    refine Alike.same ?_ _
    exact .intro hsize hfilled hwaiting hused

theorem writePending (h : Alike c c') : Matches c.writePending c'.writePending := by
  unfold Buffered.writePending
  rw [h.isOpen, h.pending, h.put]
  by_cases ho : c.isOpen = true
  · rw [if_pos ho, if_pos ho]
    exact (h.writeDirect c.pending).map (· == c.put.consumed)
  · rw [if_neg ho, if_neg ho]
    exact h.same false

theorem discardInput (h : Alike c c') (hc : Coherent c) : Alike c.discardInput c'.discardInput := by
  unfold Buffered.discardInput
  rw [h.unreadCount, h.unreadSpan hc, h.device]
  cases c.device with
  | none =>
    obtain ⟨hsize, _, hwaiting, _⟩ := h
    exact .intro hsize (.zero _ _) hwaiting fun hcell => by cases hcell
  | some d =>
    obtain ⟨hsize, _, hwaiting, _⟩ := h
    by_cases hu : 0 < c.unreadCount
    · simp only [if_pos hu]
      exact .intro hsize (.zero _ _) hwaiting fun hcell => by cases hcell
    · simp only [if_neg hu]
      exact .intro hsize (.zero _ _) hwaiting fun hcell => by cases hcell

theorem yieldInput (h : Alike c c') (hc : Coherent c) : Alike c.yieldInput c'.yieldInput := by
  unfold Buffered.yieldInput
  rw [h.mode]
  by_cases hr : c.mode.isReadable = true
  · rw [if_pos hr, if_pos hr]
    exact h.discardInput hc
  · rw [if_neg hr, if_neg hr]
    exact h

theorem sync (h : Alike c c') (hc : Coherent c) : Matches c.sync c'.sync := by
  rw [sync_eq, sync_eq, h.put]
  by_cases hp : 0 < c.put.consumed
  · rw [if_pos hp, if_pos hp]
    obtain ⟨a, s, s', hs, hs', ha⟩ := h.writePending
    rw [hs, hs']
    exact ha.reset.same a
  · rw [if_neg hp, if_neg hp]
    exact (h.yieldInput hc).same true

/-! ## Input -/

theorem turnToInput (h : Alike c c') : Alike c.turnToInput c'.turnToInput := by
  unfold Buffered.turnToInput
  rw [h.put]
  by_cases hp : 0 < c.put.consumed
  · rw [if_pos hp, if_pos hp]
    exact h.writePending.snd.closePut
  · rw [if_neg hp, if_neg hp]
    exact h.closePut

theorem takeFresh (h : Alike c c') (n : Nat) : Matches (c.takeFresh n) (c'.takeFresh n) := by
  unfold Buffered.takeFresh
  rw [h.size]
  by_cases hn : n = 0
  · rw [if_pos hn, if_pos hn]
    exact h.same []
  rw [if_neg hn, if_neg hn]
  by_cases hl : n < c.buffer.length
  · rw [if_pos hl, if_pos hl]
    have hr := h.refill
    have htake := hr.sameTo_filled.take (Nat.min_le_right n c.refill.filled)
    have hshow := hr.showAhead (min n c.refill.filled)
    rw [hr.filled_eq] at hshow
    simp only [hr.filled_eq, htake]
    exact hshow.same _
  · rw [if_neg hl, if_neg hl]
    obtain ⟨bs, s, s', hs, hs', ha⟩ := h.readDirect n
    rw [hs, hs']
    obtain ⟨hsize, _, hwaiting, hused⟩ := ha
    refine Alike.same ?_ bs
    exact .intro hsize (.zero _ _) hwaiting hused

theorem read (h : Alike c c') (hc : Coherent c) (n : Nat) : Matches (c.read n) (c'.read n) := by
  unfold Buffered.read
  rw [h.canRead]
  by_cases hn : n = 0 ∨ c.canRead = false
  · rw [if_pos hn, if_pos hn]
    exact h.same []
  rw [if_neg hn, if_neg hn]
  obtain ⟨_, hr⟩ := not_or.1 hn
  simp only [Buffered.canRead, Bool.not_eq_false, Bool.and_eq_true] at hr
  obtain ⟨hin, hcell⟩ := ((hc.pushedBack false).turnToInput hr.1 hr.2).takeCell
  obtain ⟨held, s₁, s₁', hs₁, hs₁', h₁⟩ := (h.pushedBack false).turnToInput.takeCell
  rw [hs₁] at hin hcell
  obtain ⟨ahead, s₂, s₂', hs₂, hs₂', h₂⟩ := h₁.takeAhead (hin.get_limit hcell) (n - held.length)
  obtain ⟨fresh, s₃, s₃', hs₃, hs₃', h₃⟩ := h₂.takeFresh (n - held.length - ahead.length)
  simp only [hs₁, hs₁', hs₂, hs₂', hs₃, hs₃']
  exact h₃.same _

theorem peek (h : Alike c c') (hc : Coherent c) : Matches c.peek c'.peek := by
  unfold Buffered.peek
  rw [h.canRead]
  by_cases hr : c.canRead = false
  · rw [if_pos hr, if_pos hr]
    exact h.same none
  rw [if_neg hr, if_neg hr]
  by_cases ha : 0 < c.get.available
  · have ha' : 0 < c'.get.available := by rwa [h.get]
    rw [if_pos ha, if_pos ha', h.current hc ha]
    exact h.same _
  have ha' : ¬ 0 < c'.get.available := by rwa [h.get]
  rw [if_neg ha, if_neg ha']
  by_cases hparked : c.onCell = true ∧ 0 < c.filled
  · have hparked' : c'.onCell = true ∧ 0 < c'.filled := by rwa [h.onCell, h.filled_eq]
    rw [if_pos hparked, if_pos hparked']
    simp only [h.sameTo_filled.getD hparked.2]
    exact (h.offCell.showAhead 0).same _
  have hparked' : ¬ (c'.onCell = true ∧ 0 < c'.filled) := by rwa [h.onCell, h.filled_eq]
  rw [if_neg hparked, if_neg hparked']
  by_cases hb : c.buffer = []
  · rw [if_pos hb, if_pos (h.buffer_eq_nil.2 hb)]
    obtain ⟨bs, s, s', hs, hs', ha⟩ := h.forget.readDirect 1
    rw [hs, hs']
    obtain ⟨hsize, hfilled, hwaiting, _⟩ := ha
    refine Alike.same ?_ _
    exact .intro hsize hfilled hwaiting fun _ => rfl
  · rw [if_neg hb, if_neg (mt h.buffer_eq_nil.1 hb)]
    have hr := h.turnToInput.offCell.refill
    have hshow := hr.showAhead 0
    by_cases hz : 0 < (Buffered.refill { c.turnToInput with onCell := false }).filled
    · simp only [hr.filled_eq, if_pos hz, hr.sameTo_filled.getD hz]
      rw [hr.filled_eq] at hshow
      exact hshow.same _
    · simp only [hr.filled_eq, if_neg hz]
      rw [hr.filled_eq] at hshow
      exact hshow.same _

theorem readByte (h : Alike c c') (hc : Coherent c) : Matches c.readByte c'.readByte := by
  obtain ⟨a, s, s', hs, hs', ha⟩ := h.peek hc
  unfold Buffered.readByte
  rw [hs, hs']
  cases a with
  | none => exact ha.same none
  | some b => exact (ha.advance 1).same _

theorem peekChunk (h : Alike c c') (hc : Coherent c) : Matches c.peekChunk c'.peekChunk := by
  have hp := hc.peek
  unfold Buffered.peekChunk
  rw [h.get]
  by_cases hz : c.get.available = 0
  · obtain ⟨a, s, s', hs, hs', ha⟩ := h.peek hc
    rw [hs] at hp
    rw [if_pos hz, if_pos hz, hs, hs']
    cases a with
    | none =>
      simp only [ha.error]
      cases s.error with
      | none => exact ha.same _
      | some e => exact ha.clearError.same _
    | some b =>
      simp only [ha.ahead hp]
      exact ha.same _
  · rw [if_neg hz, if_neg hz, h.ahead hc]
    exact h.same _

theorem fill (h : Alike c c') (hc : Coherent c) (n : Nat) : Matches (c.fill n) (c'.fill n) := by
  obtain ⟨a, s, s', hs, hs', ha⟩ := h.peekChunk hc
  unfold Buffered.fill
  rw [hs, hs']
  cases a with
  | ok bs => exact (ha.advance _).same _
  | error e => exact ha.same _

/-! ## Output -/

theorem overflow (h : Alike c c') (hc : Coherent c) (b : UInt8) :
    Matches (c.overflow b) (c'.overflow b) := by
  unfold Buffered.overflow
  rw [h.canWrite]
  by_cases hw : c.canWrite = false
  · rw [if_pos hw, if_pos hw]
    exact h.same false
  rw [if_neg hw, if_neg hw]
  by_cases hb : c.buffer = []
  · rw [if_pos hb, if_pos (h.buffer_eq_nil.2 hb)]
    exact ((h.yieldInput hc).writeDirect [b]).map (· == 1)
  rw [if_neg hb, if_neg (mt h.buffer_eq_nil.1 hb), hc.sync_openPut, (h.coherent hc).sync_openPut]
  obtain ⟨a, s, s', hs, hs', ha⟩ := h.sync hc
  rw [hs, hs']
  cases a with
  | true => exact (ha.openPut.place [b]).same true
  | false => exact ha.openPut.same false

theorem writeByte (h : Alike c c') (hc : Coherent c) (b : UInt8) :
    Matches (c.writeByte b) (c'.writeByte b) := by
  unfold Buffered.writeByte
  rw [h.put, h.canWrite]
  by_cases hw : 0 < c.put.available ∧ c.canWrite = true
  · rw [if_pos hw, if_pos hw]
    exact ((h.place [b]).pushedBack false).same true
  · rw [if_neg hw, if_neg hw]
    exact h.overflow hc b

theorem store (h : Alike c c') (src : Bytes) (hc : Coherent c) :
    Matches (c.store src) (c'.store src) := by
  fun_induction Buffered.store c src generalizing c' with
  | case1 =>
    rw [Buffered.store]
    exact h.same 0
  | case2 c b bs ha k more =>
    rename_i ih
    have hroom : ((b :: bs).take k).length ≤ c.put.available := by
      rw [List.length_take]
      exact Nat.le_trans (Nat.min_le_left _ _) (Nat.min_le_left _ _)
    rw [Buffered.store, h.put, if_pos ha]
    exact (ih (h.place _) (hc.place hroom)).map (k + ·)
  | case3 c b bs ha r hr more =>
    rename_i ih
    have hover : Coherent r.2 := hc.overflow b
    obtain ⟨a, s, s', hs, hs', hsame⟩ := h.overflow hc b
    have hr₁ : r = (a, s) := hs
    obtain rfl : a = true := (congrArg Prod.fst hr₁).symm.trans hr
    rw [Buffered.store, h.put, if_neg ha, hs']
    have hstate : r.2 = s := congrArg Prod.snd hr₁
    exact (ih (hstate.symm ▸ hsame) hover).map (· + 1)
  | case4 c b bs ha r =>
    rename_i hr
    obtain ⟨a, s, s', hs, hs', hsame⟩ := h.overflow hc b
    have hr₁ : r = (a, s) := hs
    obtain rfl : a = false := by
      rw [hr₁] at hr
      simpa using hr
    rw [Buffered.store, h.put, if_neg ha, hs', hr₁]
    exact hsame.same 0

theorem write (h : Alike c c') (hc : Coherent c) (src : Bytes) :
    Matches (c.write src) (c'.write src) := by
  unfold Buffered.write
  rw [h.canWrite]
  by_cases hw : c.canWrite = false
  · rw [if_pos hw, if_pos hw]
    exact h.same 0
  rw [if_neg hw, if_neg hw]
  simp only [Buffered.canWrite, Bool.not_eq_false, Bool.and_eq_true] at hw
  have hp := hc.pushedBack false
  have hstart := h.pushedBack false
  by_cases hl : c.buffer.length < src.length
  · have hl' : c'.buffer.length < src.length := by rwa [h.size]
    simp only [if_pos hl, if_pos hl']
    obtain ⟨a, s, s', hs, hs', ha⟩ := hstart.sync hp
    rw [hs, hs']
    cases a with
    | true => exact ha.writeDirect src
    | false => exact ha.same 0
  · have hl' : ¬ c'.buffer.length < src.length := by rwa [h.size]
    simp only [if_neg hl, if_neg hl']
    obtain ⟨hclear, _⟩ := hp.yieldInput
    have hyield := hstart.yieldInput hp
    change Matches (Buffered.store (if ({ c with pushedBack := false }.yieldInput).buffer = []
        then { c with pushedBack := false }.yieldInput
        else { c with pushedBack := false }.yieldInput.openPut) src)
      (Buffered.store (if ({ c' with pushedBack := false }.yieldInput).buffer = []
        then { c' with pushedBack := false }.yieldInput
        else { c' with pushedBack := false }.yieldInput.openPut) src)
    by_cases hb : ({ c with pushedBack := false }.yieldInput).buffer = []
    · rw [if_pos hb, if_pos (hyield.buffer_eq_nil.2 hb)]
      exact hyield.store src hclear.coherent
    · rw [if_neg hb, if_neg (mt hyield.buffer_eq_nil.1 hb)]
      exact hyield.openPut.store src
        (hclear.coherent.openPut (by rw [hclear.mode]; exact hw.2) hclear.unreadCount)

/-! ## Sessions -/

theorem flush (h : Alike c c') (hc : Coherent c) : Matches c.flush c'.flush := by
  unfold Buffered.flush
  rw [h.isOpen]
  by_cases ho : c.isOpen = false
  · rw [if_pos ho, if_pos ho]
    exact h.same _
  rw [if_neg ho, if_neg ho]
  obtain ⟨a, s, s', hs, hs', ha⟩ := h.sync hc
  rw [hs, hs']
  cases a with
  | true => exact ha.same _
  | false => exact ha.flushError.map Except.error

theorem seek (h : Alike c c') (hc : Coherent c) (o : Origin) : Matches (c.seek o) (c'.seek o) := by
  unfold Buffered.seek
  rw [h.isOpen]
  by_cases ho : c.isOpen = false
  · rw [if_pos ho, if_pos ho]
    exact h.same _
  rw [if_neg ho, if_neg ho]
  obtain ⟨a, s, s', hs, hs', ha⟩ := (h.pushedBack false).sync (hc.pushedBack false)
  rw [hs, hs']
  cases a with
  | true =>
    simp only [ha.device]
    cases s.device with
    | none => exact ha.same _
    | some d =>
      obtain ⟨hsize, hfilled, hwaiting, hused⟩ := ha
      refine Alike.same ?_ _
      exact .intro hsize hfilled hwaiting hused
  | false => exact ha.flushError.map Except.error

theorem installBuffer (h : Alike c c') (hc : Coherent c) (buffer : Bytes) :
    Matches (c.installBuffer buffer) (c'.installBuffer buffer) := by
  unfold Buffered.installBuffer
  rw [h.unreadCount, h.isOpen]
  by_cases hu : c.unreadCount ≠ 0
  · rw [if_pos hu, if_pos hu]
    exact h.same _
  rw [if_neg hu, if_neg hu]
  obtain ⟨a, s, s', hs, hs', ha⟩ : Matches (if c.isOpen then c.sync else (true, c))
      (if c.isOpen then c'.sync else (true, c')) := by
    by_cases ho : c.isOpen = true
    · rw [if_pos ho, if_pos ho]
      exact h.sync hc
    · rw [if_neg ho, if_neg ho]
      exact h.same true
  rw [hs, hs']
  cases a with
  | true =>
    have hnew : Alike { s with buffer := buffer, adopted := true }
        { s' with buffer := buffer, adopted := true } := by
      obtain ⟨_, _, _, hused⟩ := ha
      exact .intro rfl (fun _ _ => rfl) (fun _ _ => rfl) hused
    exact hnew.reset.same _
  | false => exact ha.flushError.map Except.error

end Alike

end ByteChannel.Buffered
