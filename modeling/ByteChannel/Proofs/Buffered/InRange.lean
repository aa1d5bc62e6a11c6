import ByteChannel.Proofs.Buffered.Checked
import ByteChannel.Proofs.Buffered.History
import ByteChannel.Proofs.Buffered.Onward

/-!
# No range of a buffered channel is outside its buffer

In a coherent channel each operation whose ranges are checked has the result of the operation
itself, so that none of its ranges is ever outside. An expander relies on what the device counts;
where that may be more than the device was given, a range of the batch can be outside.
-/

namespace ByteChannel.Buffered

section

variable {σ : Type}

/-! ## Where the regions end -/

theorem Coherent.unreadCount_of_canRead {c : Buffered σ} (h : Coherent c)
    (hr : c.canRead = false) : c.unreadCount = 0 := by
  apply h.no_input
  cases ho : c.isOpen with
  | true => simpa [canRead, ho] using hr
  | false =>
    rw [h.closed ho]
    rfl

theorem Coherent.put_of_canWrite {c : Buffered σ} (h : Coherent c) (hw : c.canWrite = false) :
    c.put = .empty := by
  apply h.no_output
  cases ho : c.isOpen with
  | true => simpa [canWrite, ho] using hw
  | false =>
    rw [h.closed ho]
    rfl

/-- Where the ends of the regions lie, as far as the ranges of the operations depend on it. -/
structure Inside (c : Buffered σ) : Prop where
  get_limit : c.onCell = false → c.get.limit ≤ c.buffer.length
  cell_limit : c.onCell = true → c.get.limit ≤ 1
  filled_le : c.filled ≤ c.buffer.length
  put_next_le : c.put.next ≤ c.buffer.length

theorem Coherent.inside {c : Buffered σ} (h : Coherent c) : Inside c where
  get_limit hc := by
    rw [h.get_limit hc]
    exact h.filled_le
  cell_limit := h.cell_limit
  filled_le := h.filled_le
  put_next_le := by
    have hn := c.put.next_le_limit
    by_cases hc : c.put.isCollapsed = true
    · rw [Region.isCollapsed_iff h.put_base] at hc
      omega
    · have hl := h.put_limit (by simpa using hc)
      omega

/-- Room may be opened even where unread input is not yet given up. -/
theorem Inside.openPut {c : Buffered σ} (h : Inside c) : Inside c.openPut := by
  rw [openPut_spec]
  refine ⟨h.get_limit, h.cell_limit, h.filled_le, ?_⟩
  by_cases hc : c.put.isCollapsed = true
  · simp only [if_pos hc, wholeBuffer, Region.next_clamped]
    omega
  · simp only [if_neg hc]
    exact h.put_next_le

theorem Inside.current?_eq_some {c : Buffered σ} (h : Inside c) (ha : 0 < c.get.available) :
    c.current? = some c.current := by
  unfold current? current
  cases hc : c.onCell with
  | true => rfl
  | false =>
    have hl := h.get_limit hc
    simp only [Region.available] at ha
    exact getElem?_eq_some_getD (by omega)

theorem Inside.ahead?_eq_some {c : Buffered σ} (h : Inside c) : c.ahead? = some c.ahead := by
  unfold ahead? ahead
  cases hc : c.onCell with
  | true => exact slice?_eq_some c.get.next_le_limit (h.cell_limit hc)
  | false => exact slice?_eq_some c.get.next_le_limit (h.get_limit hc)

theorem Inside.unreadSpan?_eq_some {c : Buffered σ} (h : Inside c) :
    c.unreadSpan? = some c.unreadSpan := by
  unfold unreadSpan? unreadSpan
  cases ht : c.text with
  | false => rfl
  | true =>
    cases hc : c.onCell with
    | true =>
      have hparked : slice? c.buffer 0 c.filled = some (c.buffer.take c.filled) :=
        slice?_zero_eq_some h.filled_le
      by_cases ha : c.get.available = 0
      · simp [ha, hparked]
      · simp [ha, hparked]
    | false =>
      have hahead : slice? c.buffer c.get.next c.get.limit =
          some (slice c.buffer c.get.next c.get.limit) :=
        slice?_eq_some c.get.next_le_limit (h.get_limit hc)
      by_cases ha : c.get.available = 0
      · simp [ha]
      · simp [ha, hahead]

theorem Inside.takeAhead?_eq_some {c : Buffered σ} (h : Inside c) (hc : c.onCell = false)
    (n : Nat) : c.takeAhead? n = some (c.takeAhead n) := by
  have hk : c.get.next + min n c.get.available ≤ c.buffer.length := by
    have hl := h.get_limit hc
    have hn := c.get.next_le_limit
    simp only [Region.available]
    omega
  simp only [takeAhead?, slice?_eq_some (Nat.le_add_right _ _) hk]
  rfl

theorem Inside.unread?_eq_some {c : Buffered σ} (h : Inside c) (b : UInt8) :
    c.unread? b = some (c.unread b) := by
  unfold unread? Buffered.unread
  by_cases hr : c.canRead = false ∨ c.pushedBack = true ∨ c.put.isCollapsed = false
  · rw [if_pos hr, if_pos hr]
  rw [if_neg hr, if_neg hr]
  cases hstep : c.get.stepBack? with
  | none =>
    cases hc : c.onCell with
    | true => rfl
    | false => rfl
  | some get =>
    obtain ⟨_, _, hnext⟩ := Region.stepBack?_spec hstep
    cases hc : c.onCell with
    | true => rfl
    | false =>
      have hfits : get.next + [b].length ≤ c.buffer.length := by
        have hl := h.get_limit hc
        have hn := c.get.next_le_limit
        rw [List.length_singleton]
        omega
      simp [overwrite?_eq_some hfits]

theorem Coherent.place?_eq_some {c : Buffered σ} (h : Coherent c) {bs : Bytes}
    (hb : bs.length ≤ c.put.available) : c.place? bs = some (c.place bs) := by
  have hfits : c.put.next + bs.length ≤ c.buffer.length := by
    have hl := length_place h hb
    simp only [Buffered.place, length_overwrite] at hl
    omega
  simp only [place?, overwrite?_eq_some hfits]
  rfl

theorem length_takeCell_le (c : Buffered σ) : c.takeCell.1.length ≤ 1 := by
  unfold takeCell
  by_cases hc : c.onCell = true
  · rw [if_pos hc]
    split <;> simp
  · rw [if_neg hc]
    exact Nat.zero_le 1

theorem length_takeAhead_le (c : Buffered σ) (n : Nat) : (c.takeAhead n).1.length ≤ n := by
  simp only [takeAhead, length_slice]
  omega

variable [Device σ]

/-! ## Moving bytes -/

theorem receive?_eq_some (d : σ) (text : Bool) (place : Bytes) :
    receive? d text place = some (receive d text place.length) := by
  unfold receive? receive
  cases text with
  | false => simp [readInto?_eq, slice?_left]
  | true =>
    obtain ⟨place', hfill, ⟨rest, rfl⟩, -⟩ := Text.Scan.fill?_eq place d
    simp [hfill, slice?_left]

/-- Text is sent only to a device that counts no more than it was given. -/
def SendsWithin (c : Buffered σ) : Prop := c.expander = none ∨ WritesWithin σ

theorem SendsWithin.onward {c c' : Buffered σ} (h : SendsWithin c) (ho : Onward c c') :
    SendsWithin c' := by
  refine h.imp_left fun he => ?_
  have hexpands := congrArg Setup.expands ho.setup
  simpa [Buffered.setup, he] using hexpands

theorem send?_eq_some {expander : Option Text.Expander} (h : expander = none ∨ WritesWithin σ)
    (d : σ) (append : Bool) (src : Bytes) :
    send? d expander append src = some (send d expander append src) := by
  unfold send? send
  rcases (if append then Device.seek d (.finish 0) else (.ok 0, d)) with ⟨_ | _, d'⟩
  · rfl
  cases expander with
  | none => simp only [writeFrom?_eq, Option.bind_eq_bind, Option.bind_some]
  | some t =>
    have : WritesWithin σ := h.resolve_left (Option.some_ne_none t)
    simp only [t.write?_eq_some, Option.bind_eq_bind, Option.bind_some]

theorem SendsWithin.writeDirect?_eq_some {c : Buffered σ} (h : SendsWithin c) (src : Bytes) :
    c.writeDirect? src = some (c.writeDirect src) := by
  unfold writeDirect? writeDirect
  cases c.device with
  | none => rfl
  | some d => simp only [send?_eq_some h, Option.bind_eq_bind, Option.bind_some]

/-! ## Giving up one direction -/

theorem Inside.writePending?_eq_some {c : Buffered σ} (h : Inside c) (hs : SendsWithin c) :
    c.writePending? = some c.writePending := by
  unfold writePending? writePending
  by_cases ho : c.isOpen = true
  · rw [if_pos ho, if_pos ho, slice?_eq_some c.put.base_le_next h.put_next_le, Option.bind_eq_bind,
      Option.bind_some, hs.writeDirect?_eq_some]
    rfl
  · rw [if_neg ho, if_neg ho]

theorem Inside.yieldInput?_eq_some {c : Buffered σ} (h : Inside c) :
    c.yieldInput? = some c.yieldInput := by
  have hd : c.discardInput? = some c.discardInput := by
    unfold discardInput? discardInput
    rw [h.unreadSpan?_eq_some]
    cases hd : c.device with
    | none => by_cases hu : 0 < c.unreadCount <;> simp [hu]
    | some d => by_cases hu : 0 < c.unreadCount <;> simp [hu]
  unfold yieldInput? Buffered.yieldInput
  rw [hd]
  by_cases hr : c.mode.isReadable = true
  · rw [if_pos hr, if_pos hr]
  · rw [if_neg hr, if_neg hr]

theorem Inside.sync?_eq_some {c : Buffered σ} (h : Inside c) (hs : SendsWithin c) :
    c.sync? = some c.sync := by
  rw [sync_eq, sync?, h.writePending?_eq_some hs, h.yieldInput?_eq_some]
  by_cases hp : 0 < c.put.consumed
  · rw [if_pos hp, if_pos hp]
    rfl
  · rw [if_neg hp, if_neg hp]
    rfl

theorem Inside.turnToInput?_eq_some {c : Buffered σ} (h : Inside c) (hs : SendsWithin c) :
    c.turnToInput? = some c.turnToInput := by
  unfold turnToInput? Buffered.turnToInput
  rw [h.writePending?_eq_some hs]
  by_cases hp : 0 < c.put.consumed
  · simp [hp]
  · simp [hp]

/-! ## Input -/

theorem refill?_eq_some (c : Buffered σ) : c.refill? = some c.refill := by
  unfold refill? refill
  cases c.device with
  | none => rfl
  | some d =>
    have hl : 0 + (receive d c.text c.buffer.length).1.bytes.length ≤ c.buffer.length := by
      rw [Nat.zero_add]
      exact length_receive_le d c.text c.buffer.length
    simp only [receive?_eq_some, Option.bind_eq_bind, Option.bind_some, overwrite?_eq_some hl]

theorem readDirect?_eq_some (c : Buffered σ) (n : Nat) :
    c.readDirect? n = some (c.readDirect n) := by
  unfold readDirect? readDirect
  cases c.device with
  | none => rfl
  | some d =>
    simp only [receive?_eq_some, List.length_replicate, Option.bind_eq_bind, Option.bind_some]

theorem takeFresh?_eq_some (c : Buffered σ) (n : Nat) : c.takeFresh? n = some (c.takeFresh n) := by
  unfold takeFresh? takeFresh
  rw [refill?_eq_some, readDirect?_eq_some]
  by_cases hn : n = 0
  · rw [if_pos hn, if_pos hn]
  rw [if_neg hn, if_neg hn]
  by_cases hl : n < c.buffer.length
  · have hk : min n c.refill.filled ≤ c.refill.buffer.length :=
      Nat.le_trans (Nat.min_le_right _ _) (refills_refill c).filled_le
    rw [if_pos hl, if_pos hl]
    simp only [Option.bind_eq_bind, Option.bind_some, slice?_zero_eq_some hk]
  · rw [if_neg hl, if_neg hl]
    rfl

theorem length_takeFresh_le (c : Buffered σ) (n : Nat) : (c.takeFresh n).1.length ≤ n := by
  unfold takeFresh
  by_cases hn : n = 0
  · rw [if_pos hn]
    exact Nat.zero_le n
  rw [if_neg hn]
  by_cases hl : n < c.buffer.length
  · rw [if_pos hl, List.length_take]
    omega
  · rw [if_neg hl]
    exact length_readDirect_le c n

theorem Coherent.read?_eq_some {c : Buffered σ} (h : Coherent c) (hs : SendsWithin c) (n : Nat) :
    c.read? n = some (c.read n) := by
  unfold read? Buffered.read
  by_cases hn : n = 0 ∨ c.canRead = false
  · rw [if_pos hn, if_pos hn]
  rw [if_neg hn, if_neg hn]
  obtain ⟨hpos, hr⟩ := not_or.1 hn
  simp only [canRead, Bool.not_eq_false, Bool.and_eq_true] at hr
  have hp := h.pushedBack false
  obtain ⟨hin, hcell⟩ := (hp.turnToInput hr.1 hr.2).takeCell
  rw [hp.inside.turnToInput?_eq_some (hs.onward (onward_pushedBack c false))]
  simp only [Option.bind_eq_bind, Option.bind_some, hin.coherent.inside.takeAhead?_eq_some hcell,
    takeFresh?_eq_some]
  -- a place of `n` bytes holds the three pieces, one after the other
  rw [fitting?_eq_some]
  · rfl
  · have hheld := length_takeCell_le { c with pushedBack := false }.turnToInput
    generalize { c with pushedBack := false }.turnToInput.takeCell = held at hheld ⊢
    have hahead := length_takeAhead_le held.2 (n - held.1.length)
    generalize held.2.takeAhead (n - held.1.length) = ahead at hahead ⊢
    have hfresh := length_takeFresh_le ahead.2 (n - held.1.length - ahead.1.length)
    simp only [List.length_append]
    omega

theorem Coherent.peek?_eq_some {c : Buffered σ} (h : Coherent c) (hs : SendsWithin c) :
    c.peek? = some c.peek := by
  unfold peek? Buffered.peek
  by_cases hr : c.canRead = false
  · rw [if_pos hr, if_pos hr]
  rw [if_neg hr, if_neg hr]
  by_cases ha : 0 < c.get.available
  · rw [if_pos ha, if_pos ha, h.inside.current?_eq_some ha]
    rfl
  rw [if_neg ha, if_neg ha]
  by_cases hparked : c.onCell = true ∧ 0 < c.filled
  · have hb : 0 < c.buffer.length := Nat.lt_of_lt_of_le hparked.2 h.filled_le
    rw [if_pos hparked, if_pos hparked, getElem?_eq_some_getD hb]
    rfl
  rw [if_neg hparked, if_neg hparked]
  by_cases hb : c.buffer = []
  · rw [if_pos hb, if_pos hb, readDirect?_eq_some]
    rfl
  rw [if_neg hb, if_neg hb, h.inside.turnToInput?_eq_some hs]
  simp only [Option.bind_eq_bind, Option.bind_some, refill?_eq_some]
  have hle := (refills_refill { c.turnToInput with onCell := false }).filled_le
  generalize refill { c.turnToInput with onCell := false } = c' at hle ⊢
  by_cases hf : 0 < c'.filled
  · simp only [if_pos hf, getElem?_eq_some_getD (Nat.lt_of_lt_of_le hf hle), Option.bind_some]
  · simp only [if_neg hf]

theorem Coherent.readByte?_eq_some {c : Buffered σ} (h : Coherent c) (hs : SendsWithin c) :
    c.readByte? = some c.readByte := by
  unfold readByte? Buffered.readByte
  rw [h.peek?_eq_some hs]
  rcases c.peek with ⟨_ | b, c'⟩
  · rfl
  · rfl

theorem Coherent.peekChunk?_eq_some {c : Buffered σ} (h : Coherent c) (hs : SendsWithin c) :
    c.peekChunk? = some c.peekChunk := by
  have hp := h.peek
  unfold peekChunk? Buffered.peekChunk
  rw [h.peek?_eq_some hs, h.inside.ahead?_eq_some]
  by_cases ha : c.get.available = 0
  · rw [if_pos ha, if_pos ha]
    rcases hr : c.peek with ⟨_ | b, c'⟩
    · cases he : c'.error with
      | none => simp [he]
      | some e => simp [he]
    · rw [hr] at hp
      simp [hp.inside.ahead?_eq_some]
  · rw [if_neg ha, if_neg ha]
    rfl

theorem Coherent.fill?_eq_some {c : Buffered σ} (h : Coherent c) (hs : SendsWithin c) (n : Nat) :
    c.fill? n = some (c.fill n) := by
  unfold fill? Buffered.fill
  rw [h.peekChunk?_eq_some hs]
  rcases c.peekChunk with ⟨e | bs, c'⟩
  · rfl
  · rfl

/-! ## Output -/

theorem Coherent.overflow?_eq_some {c : Buffered σ} (h : Coherent c) (hs : SendsWithin c)
    (b : UInt8) : c.overflow? b = some (c.overflow b) := by
  unfold overflow? Buffered.overflow
  by_cases hw : c.canWrite = false
  · rw [if_pos hw, if_pos hw]
  rw [if_neg hw, if_neg hw]
  by_cases hb : c.buffer = []
  · rw [if_pos hb, if_pos hb, h.inside.yieldInput?_eq_some, Option.bind_eq_bind, Option.bind_some,
      (hs.onward (onward_yieldInput c)).writeDirect?_eq_some]
    rfl
  rw [if_neg hb, if_neg hb, h.inside.openPut.sync?_eq_some (hs.onward (onward_openPut c)),
    h.sync_openPut]
  simp only [canWrite, Bool.not_eq_false, Bool.and_eq_true] at hw
  obtain ⟨hsync, hp⟩ := h.sync
  have hopen : Coherent c.sync.2.openPut :=
    hsync.coherent.openPut (by rw [hsync.mode]; exact hw.2) hsync.unreadCount
  have hroom : [b].length ≤ c.sync.2.openPut.put.available := by
    rw [hsync.coherent.put_openPut hp, wholeBuffer, Region.available_clamped, hsync.buffer]
    exact List.length_pos_iff.2 hb
  simp only [Option.bind_eq_bind, Option.bind_some, hopen.place?_eq_some hroom]
  split <;> rfl

theorem Coherent.writeByte?_eq_some {c : Buffered σ} (h : Coherent c) (hs : SendsWithin c)
    (b : UInt8) : c.writeByte? b = some (c.writeByte b) := by
  unfold writeByte? Buffered.writeByte
  rw [h.overflow?_eq_some hs]
  by_cases hw : 0 < c.put.available ∧ c.canWrite = true
  · rw [if_pos hw, if_pos hw, h.place?_eq_some (show [b].length ≤ _ from hw.1)]
    rfl
  · rw [if_neg hw, if_neg hw]

theorem Coherent.store?_eq_some {c : Buffered σ} (h : Coherent c) (hs : SendsWithin c)
    (src : Bytes) : c.store? src = some (c.store src) := by
  fun_induction Buffered.store c src with
  | case1 => rw [store?]
  | case2 c b bs ha k more ih =>
    have hk : k ≤ (b :: bs).length := Nat.min_le_right _ _
    have hroom : ((b :: bs).take k).length ≤ c.put.available := by
      rw [List.length_take]
      exact Nat.le_trans (Nat.min_le_left _ _) (Nat.min_le_left _ _)
    rw [store?, if_pos ha]
    have hmore := ih (h.place hroom) (hs.onward (h.onward_place hroom))
    simp only [slice?_zero_eq_some hk, h.place?_eq_some hroom, hmore, k, Option.bind_eq_bind,
      Option.bind_some]
    rfl
  | case3 c b bs ha r hr more ih =>
    rw [store?, if_neg ha, h.overflow?_eq_some hs]
    change (if r.1 then (r.2.store? bs).bind _ else _) = _
    rw [if_pos hr, ih (h.overflow b) (hs.onward (h.onward_overflow b))]
    rfl
  | case4 c b bs ha r hr =>
    rw [store?, if_neg ha, h.overflow?_eq_some hs]
    change (if r.1 then _ else _) = _
    rw [if_neg hr]

theorem Coherent.write?_eq_some {c : Buffered σ} (h : Coherent c) (hs : SendsWithin c)
    (src : Bytes) : c.write? src = some (c.write src) := by
  unfold write? Buffered.write
  by_cases hw : c.canWrite = false
  · rw [if_pos hw, if_pos hw]
  rw [if_neg hw, if_neg hw]
  simp only [canWrite, Bool.not_eq_false, Bool.and_eq_true] at hw
  have hp := h.pushedBack false
  have hsp := hs.onward (onward_pushedBack c false)
  by_cases hl : c.buffer.length < src.length
  · simp only [if_pos hl, hp.inside.sync?_eq_some hsp, Option.bind_eq_bind, Option.bind_some,
      (hsp.onward (onward_sync _)).writeDirect?_eq_some]
    split <;> rfl
  simp only [if_neg hl, hp.inside.yieldInput?_eq_some, Option.bind_eq_bind, Option.bind_some]
  obtain ⟨hc, _⟩ := hp.yieldInput
  change _ = some (Buffered.store (if ({ c with pushedBack := false }.yieldInput).buffer = []
    then { c with pushedBack := false }.yieldInput
    else { c with pushedBack := false }.yieldInput.openPut) src)
  have hsy := hsp.onward (onward_yieldInput _)
  by_cases hb : ({ c with pushedBack := false }.yieldInput).buffer = []
  · rw [if_pos hb]
    exact hc.coherent.store?_eq_some hsy src
  · rw [if_neg hb]
    have hopen := hc.coherent.openPut (by rw [hc.mode]; exact hw.2) hc.unreadCount
    exact hopen.store?_eq_some (hsy.onward (onward_openPut _)) src

/-! ## Sessions -/

theorem Inside.flush?_eq_some {c : Buffered σ} (h : Inside c) (hs : SendsWithin c) :
    c.flush? = some c.flush := by
  unfold flush? Buffered.flush
  rw [h.sync?_eq_some hs]
  by_cases ho : c.isOpen = false
  · rw [if_pos ho, if_pos ho]
  · rw [if_neg ho, if_neg ho]
    simp only [Option.bind_eq_bind, Option.bind_some]
    split <;> rfl

theorem Coherent.seek?_eq_some {c : Buffered σ} (h : Coherent c) (hs : SendsWithin c)
    (o : Origin) : c.seek? o = some (c.seek o) := by
  unfold seek? Buffered.seek
  rw [(h.pushedBack false).inside.sync?_eq_some (hs.onward (onward_pushedBack c false))]
  by_cases ho : c.isOpen = false
  · rw [if_pos ho, if_pos ho]
  rw [if_neg ho, if_neg ho]
  rcases Buffered.sync { c with pushedBack := false } with ⟨_ | _, c'⟩
  · rfl
  · cases hd : c'.device with
    | none => simp [hd]
    | some d => simp [hd]

theorem Inside.installBuffer?_eq_some {c : Buffered σ} (h : Inside c) (hs : SendsWithin c)
    (buffer : Bytes) : c.installBuffer? buffer = some (c.installBuffer buffer) := by
  unfold installBuffer? Buffered.installBuffer
  rw [h.sync?_eq_some hs]
  by_cases hu : c.unreadCount ≠ 0
  · rw [if_pos hu, if_pos hu]
  rw [if_neg hu, if_neg hu]
  by_cases ho : c.isOpen = true
  · rcases hs : c.sync with ⟨_ | _, c'⟩ <;> simp [ho]
  · simp [ho]

theorem Inside.close?_eq_some {c : Buffered σ} (h : Inside c) (hs : SendsWithin c) :
    c.close? = some c.close := by
  unfold close? Buffered.close
  rw [h.flush?_eq_some hs]
  by_cases ho : c.isOpen = false
  · rw [if_pos ho, if_pos ho]
  rw [if_neg ho, if_neg ho]
  rcases c.flush with ⟨_ | _, c'⟩
  · cases hd : c'.device with
    | none => simp [hd]
    | some d => simp [hd]
  · cases hd : c'.device with
    | none => simp [hd]
    | some d => simp [hd]

/-! ## Any call, after any history -/

theorem Coherent.perform?_eq_some {c : Buffered σ} (h : Coherent c) (hs : SendsWithin c)
    (call : Call) : c.perform? call = some (c.perform call) := by
  cases call with
  | read n => exact congrArg (Option.map _) (h.read?_eq_some hs n)
  | readByte => exact congrArg (Option.map _) (h.readByte?_eq_some hs)
  | peek => exact congrArg (Option.map _) (h.peek?_eq_some hs)
  | fill n => exact congrArg (Option.map _) (h.fill?_eq_some hs n)
  | unread b => exact congrArg (Option.map _) (h.inside.unread?_eq_some b)
  | write src => exact congrArg (Option.map _) (h.write?_eq_some hs src)
  | writeByte b => exact congrArg (Option.map _) (h.writeByte?_eq_some hs b)
  | overflow b => exact congrArg (Option.map _) (h.overflow?_eq_some hs b)
  | flush => exact congrArg (Option.map _) (h.inside.flush?_eq_some hs)
  | seek o => exact congrArg (Option.map _) (h.seek?_eq_some hs o)
  | tell => exact congrArg (Option.map _) (h.seek?_eq_some hs _)
  | install buffer => exact congrArg (Option.map _) (h.inside.installBuffer?_eq_some hs buffer)
  | resize n => exact congrArg (Option.map _) (h.inside.installBuffer?_eq_some hs _)

theorem ExpandsText.act {c : Buffered σ} (he : ExpandsText c) (h : Coherent c) (a : Act σ) :
    ExpandsText (c.act a) := by
  cases a with
  | attach d mode =>
    cases ha : c.attach d mode with
    | ok c' =>
      simp only [Buffered.act, ha]
      exact expandsText_attach ha
    | error e =>
      simp only [Buffered.act, ha]
      exact he
  | call call => exact he.perform h call
  | consume n =>
    simp only [Buffered.act, consume?]
    cases c.get.bump? n with
    | none => exact he
    | some get => exact he
  | takeError => exact he
  | configure o => exact he
  | close => exact he.close

theorem ExpandsText.actAll {c : Buffered σ} (he : ExpandsText c) (h : Coherent c)
    (acts : List (Act σ)) : ExpandsText (c.actAll acts) := by
  induction acts generalizing c with
  | nil => exact he
  | cons a acts ih => exact ih (he.act h a) (h.act a)

theorem ExpandsText.sendsWithin {c : Buffered σ} (he : ExpandsText c) (h : Coherent c)
    (hw : c.text = true → c.canWrite = true → WritesWithin σ) : SendsWithin c := by
  cases hexpander : c.expander with
  | none => exact .inl hexpander
  | some t =>
    rw [ExpandsText, hexpander] at he
    obtain ⟨ht, hwritable⟩ := Bool.and_eq_true_iff.1 he.symm
    have ho : c.isOpen = true := by
      by_contra hclosed
      rw [h.closed (by simpa using hclosed)] at hwritable
      cases hwritable
    exact .inr (hw ht (Bool.and_eq_true_iff.2 ⟨ho, hwritable⟩))

/-- Where the regions of a channel lie after any history, over any device: output and unread input
never stand in the buffer together, and neither has a place in a channel that is not open for it.
Therefore no range of whatever is called next lies outside, provided that the device counts no more
than it was given where text is written to it. -/
theorem regions_hold_and_ranges_are_inside (o : Settings) (acts : List (Act σ)) :
    let c := (withSettings o).actAll acts
    (c.get.base = 0 ∧ c.put.base = 0) ∧
      (0 < c.put.capacity → c.put.limit = c.buffer.length ∧ c.unreadCount = 0) ∧
      (c.onCell = false → c.get.limit = c.filled) ∧
      (c.onCell = true → c.get.limit ≤ 1) ∧
      c.filled ≤ c.buffer.length ∧
      (c.canRead = false → c.unreadCount = 0) ∧
      (c.canWrite = false → c.put = .empty) ∧
      (∀ n ≤ c.get.available, c.buffer.length ≤ maxWord → c.consume? n = some (c.advance n)) ∧
      ((c.text = true → c.canWrite = true → WritesWithin σ) →
        (∀ call, c.perform? call = some (c.perform call)) ∧ c.close? = some c.close) := by
  intro c
  have h : Coherent c := (coherent_withSettings o).actAll acts
  have hstart : ExpandsText (withSettings o : Buffered σ) := rfl
  have hexpands : ExpandsText c := hstart.actAll (coherent_withSettings o) acts
  have hput : 0 < c.put.capacity → c.put.isCollapsed = false := by
    intro hc
    simp only [Region.capacity] at hc
    simp only [Region.isCollapsed, beq_eq_false_iff_ne]
    omega
  refine ⟨⟨h.get_base, h.put_base⟩, fun hc => ⟨h.put_limit (hput hc), h.exclusive (hput hc)⟩,
    h.get_limit, h.cell_limit, h.filled_le, h.unreadCount_of_canRead, h.put_of_canWrite,
    fun _ hn hb => h.consume?_eq_some hb hn, fun hw => ?_⟩
  have hs : SendsWithin c := hexpands.sendsWithin h hw
  exact ⟨h.perform?_eq_some hs, h.inside.close?_eq_some hs⟩

end

/-- A line end waits in a text channel over memory. -/
theorem regions_hold_and_ranges_are_inside_text :
    let c := (withSettings { bufferSize := 4, textPolicy := .translate } : Buffered Cursor).actAll
      [.attach (.ofBytes [] 0) { write := true }, .call (.writeByte Text.lf)]
    c.pending = [Text.lf] ∧ c.put.limit = 4 ∧ c.unreadCount = 0 ∧ c.get.limit = c.filled ∧
      c.perform? .flush = some (c.perform .flush) ∧ c.close? = some c.close := by
  intro c
  have hcapacity : 0 < c.put.capacity := by cbv
  obtain ⟨-, hput, hget, -, -, hread, -, -, hranges⟩ :=
    regions_hold_and_ranges_are_inside (σ := Cursor) { bufferSize := 4, textPolicy := .translate }
      [.attach (.ofBytes [] 0) { write := true }, .call (.writeByte Text.lf)]
  obtain ⟨hcalls, hclose⟩ := hranges fun _ _ => inferInstance
  exact ⟨by cbv, (hput hcapacity).1, hread rfl, hget rfl, hcalls .flush, hclose⟩

/-- A device that counts one byte more than it is given. -/
structure Overcounting where

instance : Device Overcounting where
  read d _ := (.ok [], d)
  write d src := (.ok (src.length + 1), d)
  seek d _ := (.ok 0, d)
  close d := (.ok (), d)
  patience _ := 0
  length_read_le h := by
    cases h
    exact Nat.zero_le _
  patience_read_lt h := by cases h
  patience_write_lt h := by cases h

/-- A line end waits, which is two bytes in the batch; three are counted when it is written. -/
theorem overcounted_batch_is_outside :
    let c := (withSettings { bufferSize := 4, textPolicy := .translate } :
        Buffered Overcounting).actAll
      [.attach {} { write := true }, .call (.writeByte Text.lf)]
    c.pending = [Text.lf] ∧ c.perform? .flush = none := by
  exact ⟨by cbv, by cbv⟩

end ByteChannel.Buffered
