import ByteChannel.Buffered.Stream
import ByteChannel.Proofs.Text.Settled

/-!
# The regions of a buffered channel never contradict each other

Both regions lie over the same buffer, so at most one of them may have anything in it. That, and
where the regions end, is what every operation of a channel keeps, whatever the device does.
-/

namespace ByteChannel.Buffered

variable {σ : Type}

structure Coherent (c : Buffered σ) : Prop where
  get_base : c.get.base = 0
  put_base : c.put.base = 0
  get_limit : c.onCell = false → c.get.limit = c.filled
  cell_limit : c.onCell = true → c.get.limit ≤ 1
  filled_le : c.filled ≤ c.buffer.length
  put_limit : c.put.isCollapsed = false → c.put.limit = c.buffer.length
  /-- Room for output means that there is no unread input, not even parked. -/
  exclusive : c.put.isCollapsed = false → c.unreadCount = 0
  closed : c.isOpen = false → c.mode = .noAccess
  no_input : c.mode.isReadable = false → c.unreadCount = 0
  no_output : c.mode.isWritable = false → c.put = .empty

/-- What two states have in common where only the device, the expander and the latch differ. -/
structure SameRegions (c c' : Buffered σ) : Prop where
  isOpen : c'.isOpen = c.isOpen
  mode : c'.mode = c.mode
  text : c'.text = c.text
  buffer : c'.buffer = c.buffer
  get : c'.get = c.get
  put : c'.put = c.put
  filled : c'.filled = c.filled
  onCell : c'.onCell = c.onCell
  cell : c'.cell = c.cell
  pushedBack : c'.pushedBack = c.pushedBack

theorem SameRegions.unreadCount {c c' : Buffered σ} (h : SameRegions c c') :
    c'.unreadCount = c.unreadCount := by
  rw [Buffered.unreadCount, h.get, h.onCell, h.filled]
  rfl

theorem Coherent.congr {c c' : Buffered σ} (h : Coherent c) (hs : SameRegions c c') :
    Coherent c' := by
  have hu := hs.unreadCount
  obtain ⟨ho, hm, _, hb, hg, hp, hf, hcell, _, _⟩ := hs
  constructor
  · rw [hg]
    exact h.get_base
  · rw [hp]
    exact h.put_base
  · rw [hg, hcell, hf]
    exact h.get_limit
  · rw [hg, hcell]
    exact h.cell_limit
  · rw [hf, hb]
    exact h.filled_le
  · rw [hp, hb]
    exact h.put_limit
  · rw [hp, hu]
    exact h.exclusive
  · rw [ho, hm]
    exact h.closed
  · rw [hm, hu]
    exact h.no_input
  · rw [hm, hp]
    exact h.no_output

/-! ## States at the start of a direction -/

/-- What the put region of a state must satisfy apart from the input. -/
structure PutCoherent (c : Buffered σ) : Prop where
  put_base : c.put.base = 0
  put_limit : c.put.isCollapsed = false → c.put.limit = c.buffer.length
  closed : c.isOpen = false → c.mode = .noAccess
  no_output : c.mode.isWritable = false → c.put = .empty

/-- Without input, only the put region matters. -/
theorem PutCoherent.forget {c : Buffered σ} (h : PutCoherent c) :
    Coherent { c with filled := 0, get := .empty, onCell := false } where
  get_base := rfl
  put_base := h.put_base
  get_limit _ := rfl
  cell_limit hc := by cases hc
  filled_le := Nat.zero_le _
  put_limit := h.put_limit
  exclusive _ := rfl
  closed := h.closed
  no_input _ := rfl
  no_output := h.no_output

theorem coherent_withSettings (o : Settings) : Coherent (withSettings o : Buffered σ) :=
  PutCoherent.forget (c := withSettings o)
    ⟨rfl, fun hn => (by cases hn), fun _ => rfl, fun _ => rfl⟩

theorem coherent_reset {c : Buffered σ} (hc : c.isOpen = false → c.mode = .noAccess) :
    Coherent c.reset := by
  apply PutCoherent.forget
    (c := { c with put := if c.mode.isWritable then c.wholeBuffer else .empty })
  by_cases hw : c.mode.isWritable = true
  · simp only [if_pos hw]
    exact ⟨rfl, fun _ => Region.limit_clamped _ _, hc, fun hn => by rw [hw] at hn; cases hn⟩
  · simp only [if_neg hw]
    exact ⟨rfl, fun hn => (by cases hn), hc, fun _ => rfl⟩

/-- A channel that is being read: there is no room for output, and the get region is in order. -/
structure Inward (c : Buffered σ) : Prop where
  isOpen : c.isOpen = true
  readable : c.mode.isReadable = true
  put : c.put = .empty
  get_base : c.get.base = 0
  get_limit : c.onCell = false → c.get.limit = c.filled
  cell_limit : c.onCell = true → c.get.limit ≤ 1
  filled_le : c.filled ≤ c.buffer.length

theorem Inward.coherent {c : Buffered σ} (h : Inward c) : Coherent c where
  get_base := h.get_base
  put_base := by rw [h.put]; rfl
  get_limit := h.get_limit
  cell_limit := h.cell_limit
  filled_le := h.filled_le
  put_limit hc := by rw [h.put] at hc; cases hc
  exclusive hc := by rw [h.put] at hc; cases hc
  closed hc := by rw [h.isOpen] at hc; cases hc
  no_input hc := by rw [h.readable] at hc; cases hc
  no_output _ := h.put

theorem Coherent.inward {c : Buffered σ} (h : Coherent c) (ho : c.isOpen = true)
    (hr : c.mode.isReadable = true) : Inward { c with put := .empty } :=
  ⟨ho, hr, rfl, h.get_base, h.get_limit, h.cell_limit, h.filled_le⟩

theorem Inward.congr {c c' : Buffered σ} (h : Inward c) (hs : SameRegions c c') : Inward c' := by
  obtain ⟨ho, hm, _, hb, hg, hp, hf, hcell, _, _⟩ := hs
  constructor
  · rw [ho]
    exact h.isOpen
  · rw [hm]
    exact h.readable
  · rw [hp]
    exact h.put
  · rw [hg]
    exact h.get_base
  · rw [hg, hcell, hf]
    exact h.get_limit
  · rw [hg, hcell]
    exact h.cell_limit
  · rw [hf, hb]
    exact h.filled_le

theorem Coherent.pushedBack {c : Buffered σ} (h : Coherent c) (b : Bool) :
    Coherent { c with pushedBack := b } :=
  ⟨h.1, h.2, h.3, h.4, h.5, h.6, h.7, h.8, h.9, h.10⟩

theorem Coherent.configure {c : Buffered σ} (h : Coherent c) (o : Settings) :
    Coherent { c with settings := o } :=
  ⟨h.1, h.2, h.3, h.4, h.5, h.6, h.7, h.8, h.9, h.10⟩

theorem Inward.takeCell {c : Buffered σ} (h : Inward c) :
    Inward c.takeCell.2 ∧ c.takeCell.2.onCell = false := by
  unfold Buffered.takeCell
  by_cases hcell : c.onCell = true
  · rw [if_pos hcell]
    exact ⟨⟨h.isOpen, h.readable, h.put, rfl, fun _ => Region.limit_clamped _ _,
      fun hc => (by cases hc), h.filled_le⟩, rfl⟩
  · rw [if_neg hcell]
    exact ⟨h, by simpa using hcell⟩

theorem Inward.bump {c : Buffered σ} (h : Inward c) (k : Nat) :
    Inward { c with get := c.get.bump k } :=
  ⟨h.isOpen, h.readable, h.put, h.get_base, h.get_limit, h.cell_limit, h.filled_le⟩

/-- Unread input leaves no room for output. -/
theorem Coherent.isCollapsed_of_unread {c : Buffered σ} (h : Coherent c) (hu : c.unreadCount ≠ 0) :
    c.put.isCollapsed = true := by
  by_cases hp : c.put.isCollapsed = true
  · exact hp
  · exact absurd (h.exclusive (by simpa using hp)) hu

/-- Over no buffer there is no room. -/
theorem Coherent.isCollapsed_of_nil {c : Buffered σ} (h : Coherent c) (hb : c.buffer = []) :
    c.put.isCollapsed = true := by
  by_cases hc : c.put.isCollapsed = true
  · exact hc
  · have hl := h.put_limit (by simpa using hc)
    rw [hb] at hl
    exact (Region.isCollapsed_iff h.put_base).2 hl

/-! ## Moving cursors -/

theorem Coherent.bump {c : Buffered σ} (h : Coherent c) (k : Nat) :
    Coherent { c with get := c.get.bump k } := by
  have ha : (c.get.bump k).available ≤ c.get.available := by
    have := c.get.next_le_limit
    simp only [Region.available, Region.limit_bump, Region.next_bump]
    omega
  have hu : unreadCount { c with get := c.get.bump k } ≤ c.unreadCount := Nat.add_le_add_right ha _
  constructor
  · exact h.get_base
  · exact h.put_base
  · exact h.get_limit
  · exact h.cell_limit
  · exact h.filled_le
  · exact h.put_limit
  · exact fun hc => Nat.le_zero.1 (h.exclusive hc ▸ hu)
  · exact h.closed
  · exact fun hc => Nat.le_zero.1 (h.no_input hc ▸ hu)
  · exact h.no_output

theorem Coherent.advance {c : Buffered σ} (h : Coherent c) (k : Nat) : Coherent (c.advance k) :=
  (h.bump k).pushedBack false

theorem Coherent.consume {c c' : Buffered σ} (h : Coherent c) {n : Nat}
    (hn : c.consume? n = some c') : Coherent c' := by
  obtain ⟨get, hget, rfl⟩ := Option.map_eq_some_iff.1 hn
  unfold Region.bump? at hget
  split at hget
  · cases hget
    exact h.advance n
  · cases hget

/-- An amount that is at hand fits a word if the buffer does, and may be counted as read. -/
theorem Coherent.consume?_eq_some {c : Buffered σ} (h : Coherent c) (hb : c.buffer.length ≤ maxWord)
    {n : Nat} (hn : n ≤ c.get.available) : c.consume? n = some (c.advance n) := by
  have hle := c.get.next_le_limit
  have hlimit : c.get.limit ≤ maxWord := by
    by_cases hc : c.onCell = true
    · exact Nat.le_trans (h.cell_limit hc) (by decide)
    · rw [h.get_limit (by simpa using hc)]
      exact Nat.le_trans h.filled_le hb
  simp only [Region.available] at hn
  rw [consume?, Region.bump?, if_pos (by omega)]
  rfl

/-- Where there is no room for output, the unread input may change as its region allows. -/
theorem Coherent.setInput {c : Buffered σ} (h : Coherent c) (hr : c.mode.isReadable = true)
    (hp : c.put.isCollapsed = true) {buffer : Bytes} {get : Region} (onCell : Bool) (cell : UInt8)
    (pushedBack : Bool) (hlen : buffer.length = c.buffer.length) (hbase : get.base = 0)
    (hlimit : onCell = false → get.limit = c.filled) (hcell : onCell = true → get.limit ≤ 1) :
    Coherent { c with
      buffer := buffer, get := get, onCell := onCell, cell := cell, pushedBack := pushedBack } where
  get_base := hbase
  put_base := h.put_base
  get_limit := hlimit
  cell_limit := hcell
  filled_le := hlen ▸ h.filled_le
  put_limit hc := nomatch hp.symm.trans hc
  exclusive hc := nomatch hp.symm.trans hc
  closed := h.closed
  no_input hc := nomatch hr.symm.trans hc
  no_output := h.no_output

theorem Coherent.unread {c : Buffered σ} (h : Coherent c) (b : UInt8) :
    Coherent (c.unread b).2 := by
  unfold Buffered.unread
  by_cases hr : c.canRead = false ∨ c.pushedBack = true ∨ c.put.isCollapsed = false
  · rw [if_pos hr]
    exact h
  rw [if_neg hr]
  simp only [canRead, not_or, Bool.not_eq_false, Bool.and_eq_true] at hr
  obtain ⟨⟨_, hread⟩, _, hput⟩ := hr
  cases hstep : c.get.stepBack? with
  | none =>
    by_cases hcell : c.onCell = true
    · simp only [if_pos hcell]
      exact h
    · simp only [if_neg hcell]
      exact h.setInput hread hput true b true rfl rfl nofun
        fun _ => Nat.le_of_eq (Region.limit_clamped 0 1)
  | some get =>
    obtain ⟨hbase, hlimit, hnext⟩ := Region.stepBack?_spec hstep
    have hget (hc : c.onCell = false) : get.limit = c.filled := hlimit.trans (h.get_limit hc)
    have hone (hc : c.onCell = true) : get.limit ≤ 1 := hlimit ▸ h.cell_limit hc
    by_cases hcell : c.onCell = true
    · simp only [if_pos hcell]
      exact h.setInput hread hput c.onCell b true rfl (hbase.trans h.get_base) hget hone
    · simp only [if_neg hcell]
      have hg := h.get_limit (by simpa using hcell)
      have hlt := c.get.next_le_limit
      have hf := h.filled_le
      have hlen : (overwrite c.buffer get.next [b]).length = c.buffer.length := by
        rw [length_overwrite, List.length_singleton]
        omega
      exact h.setInput hread hput c.onCell c.cell true hlen (hbase.trans h.get_base) hget hone

/-- Bytes go in only where there is room for them, so that the buffer keeps its size. -/
theorem length_place {c : Buffered σ} (h : Coherent c) {bs : Bytes}
    (hb : bs.length ≤ c.put.available) : (c.place bs).buffer.length = c.buffer.length := by
  have hn := c.put.next_le_limit
  simp only [Region.available] at hb
  simp only [Buffered.place, length_overwrite]
  by_cases hc : c.put.isCollapsed = true
  · rw [Region.isCollapsed_iff h.put_base] at hc
    omega
  · have hl := h.put_limit (by simpa using hc)
    omega

theorem Coherent.place {c : Buffered σ} (h : Coherent c) {bs : Bytes}
    (hb : bs.length ≤ c.put.available) : Coherent (c.place bs) := by
  have hl := length_place h hb
  refine ⟨h.get_base, h.put_base, h.get_limit, h.cell_limit, hl ▸ h.filled_le,
    fun hc => hl ▸ h.put_limit hc, h.exclusive, h.closed, h.no_input, ?_⟩
  intro hw
  have hp : c.put = .empty := h.no_output hw
  change c.put.bump bs.length = .empty
  rw [hp] at hb ⊢
  simp [Region.bump, Region.empty]

theorem Coherent.openPut {c : Buffered σ} (h : Coherent c) (hw : c.mode.isWritable = true)
    (hu : c.unreadCount = 0) : Coherent c.openPut := by
  unfold Buffered.openPut
  by_cases hc : c.put.isCollapsed = true
  · rw [if_pos hc]
    exact ⟨h.get_base, rfl, h.get_limit, h.cell_limit, h.filled_le,
      fun _ => Region.limit_clamped _ _, fun _ => hu, h.closed, fun _ => hu,
      fun hn => by rw [hw] at hn; cases hn⟩
  · rw [if_neg hc]
    exact h

theorem wholeBuffer_of_consumed {c : Buffered σ} (hb : c.put.base = 0)
    (hl : c.put.limit = c.buffer.length) (hc : c.put.consumed = 0) : c.put = c.wholeBuffer := by
  have hn := c.put.next_le_limit
  simp only [Region.consumed] at hc
  rw [wholeBuffer, Region.clamped_of_le (Nat.le_refl 0) (Nat.zero_le _)]
  cases hp : c.put with
  | mk base next limit _ _ =>
    simp only [hp] at hb hl hc
    simp only [Region.mk.injEq]
    omega

theorem openPut_spec (c : Buffered σ) :
    c.openPut = { c with put := if c.put.isCollapsed then c.wholeBuffer else c.put } := by
  unfold Buffered.openPut
  by_cases hc : c.put.isCollapsed = true
  · rw [if_pos hc, if_pos hc]
  · rw [if_neg hc, if_neg hc]

/-- Where nothing waits, all of an open buffer is free. -/
theorem Coherent.put_openPut {c : Buffered σ} (h : Coherent c) (hp : c.put.consumed = 0) :
    c.openPut.put = c.wholeBuffer := by
  rw [openPut_spec]
  by_cases hc : c.put.isCollapsed = true
  · rw [if_pos hc]
  · rw [if_neg hc]
    exact wholeBuffer_of_consumed h.put_base (h.put_limit (by simpa using hc)) hp

theorem openPut_of_whole {c : Buffered σ} (h : c.put = c.wholeBuffer) : c.openPut = c := by
  unfold Buffered.openPut
  by_cases hc : c.put.isCollapsed = true
  · rw [if_pos hc, ← h]
  · rw [if_neg hc]

theorem consumed_openPut {c : Buffered σ} (hp : ¬ 0 < c.put.consumed) :
    ¬ 0 < c.openPut.put.consumed := by
  rw [openPut_spec]
  by_cases hc : c.put.isCollapsed = true
  · simp only [if_pos hc]
    exact Nat.lt_irrefl 0
  · simp only [if_neg hc]
    exact hp

/-! ## Moving bytes -/

theorem sameRegions_flushError (c : Buffered σ) : SameRegions c c.flushError.2 := by
  constructor <;> rfl

theorem Coherent.clearError {c : Buffered σ} (h : Coherent c) : Coherent { c with error := none } :=
  h.congr (sameRegions_flushError c)

variable [Device σ]

theorem sameRegions_writeDirect (c : Buffered σ) (src : Bytes) :
    SameRegions c (c.writeDirect src).2 := by
  unfold writeDirect
  cases hd : c.device with
  | none => constructor <;> simp
  | some d => constructor <;> simp [latch, isOpen, hd]

theorem sameRegions_writePending (c : Buffered σ) : SameRegions c c.writePending.2 := by
  unfold writePending
  by_cases ho : c.isOpen = true
  · rw [if_pos ho]
    exact sameRegions_writeDirect c c.pending
  · rw [if_neg ho]
    constructor <;> rfl

theorem sameRegions_readDirect (c : Buffered σ) (n : Nat) : SameRegions c (c.readDirect n).2 := by
  unfold readDirect
  cases hd : c.device with
  | none => constructor <;> simp
  | some d => constructor <;> simp [latch, isOpen, hd]

theorem length_receive_le (d : σ) (text : Bool) (n : Nat) :
    (receive d text n).1.bytes.length ≤ n := by
  unfold receive
  cases text with
  | false => exact length_bytes_readFully_le d n
  | true => exact Text.length_readCollapsed_le d n

theorem length_readDirect_le (c : Buffered σ) (n : Nat) : (c.readDirect n).1.length ≤ n := by
  unfold readDirect
  cases c.device with
  | none => exact Nat.zero_le n
  | some d => exact length_receive_le d c.text n

/-- What reading ahead into the buffer changes. -/
structure Refills (c c' : Buffered σ) : Prop where
  isOpen : c'.isOpen = c.isOpen
  mode : c'.mode = c.mode
  get : c'.get = c.get
  put : c'.put = c.put
  onCell : c'.onCell = c.onCell
  length : c'.buffer.length = c.buffer.length
  filled_le : c'.filled ≤ c'.buffer.length

theorem refills_refill (c : Buffered σ) : Refills c c.refill := by
  unfold refill
  cases hd : c.device with
  | none => constructor <;> simp [isOpen, hd]
  | some d =>
    have hl := length_receive_le d c.text c.buffer.length
    constructor <;> simp only [latch, isOpen, hd, Option.isSome_some, length_overwrite] <;> omega

theorem inward_refill {c : Buffered σ} (ho : c.isOpen = true) (hm : c.mode.isReadable = true)
    (hp : c.put = .empty) (hcell : c.onCell = false) (k : Nat) :
    Inward { c.refill with get := .clamped 0 k c.refill.filled } := by
  have hr := refills_refill c
  constructor
  · exact hr.isOpen.trans ho
  · rw [← hm, ← hr.mode]
  · exact hr.put.trans hp
  · rfl
  · exact fun _ => Region.limit_clamped _ _
  · intro hc
    rw [show (_ : Buffered σ).onCell = c.refill.onCell from rfl, hr.onCell, hcell] at hc
    cases hc
  · exact hr.filled_le

/-! ## Synchronising -/

theorem discardInput_spec (c : Buffered σ) :
    ∃ device error, device.isSome = c.device.isSome ∧ ∀ put, { c with put := put }.discardInput =
      { c with
        device := device
        error := error
        put := put
        filled := 0
        get := .empty
        onCell := false } := by
  cases hd : c.device with
  | none => exact ⟨c.device, c.error, by rw [hd], fun put => by simp [discardInput, hd]⟩
  | some d =>
    by_cases hu : 0 < c.unreadCount
    · let r := Device.seek d (.current (-c.unreadSpan))
      refine ⟨some r.2, c.error.or (failure? r.1), rfl, ?_⟩
      intro put
      simp only [discardInput]
      split
      · rfl
      · next hn => exact absurd hu hn
    · refine ⟨c.device, c.error, by rw [hd], ?_⟩
      intro put
      simp only [discardInput, hd]
      split
      · next hp => exact absurd hp hu
      · rfl

/-- Gives up what was read ahead, if the channel can have any. -/
def yieldInput (c : Buffered σ) : Buffered σ := if c.mode.isReadable then c.discardInput else c

theorem sync_eq (c : Buffered σ) :
    c.sync = if 0 < c.put.consumed then (c.writePending.1, c.writePending.2.reset)
      else (true, c.yieldInput) := by
  unfold sync yieldInput
  by_cases hr : c.mode.isReadable = true
  · rw [if_pos hr, if_pos hr]
  · rw [if_neg hr, if_neg hr]

/-- A channel that has given up its input and is otherwise the same. -/
structure Cleared (c c' : Buffered σ) : Prop where
  coherent : Coherent c'
  unreadCount : c'.unreadCount = 0
  isOpen : c'.isOpen = c.isOpen
  mode : c'.mode = c.mode
  buffer : c'.buffer = c.buffer

theorem Coherent.yieldInput {c : Buffered σ} (h : Coherent c) :
    Cleared c c.yieldInput ∧ c.yieldInput.put = c.put := by
  unfold Buffered.yieldInput
  by_cases hr : c.mode.isReadable = true
  · obtain ⟨device, error, hs, hd⟩ := discardInput_spec c
    rw [if_pos hr, show c.discardInput = _ from hd c.put]
    refine ⟨⟨PutCoherent.forget (c := { c with device := device, error := error }) ?_, rfl, hs, rfl,
      rfl⟩, rfl⟩
    exact ⟨h.put_base, h.put_limit, fun hn => h.closed (hs.symm.trans hn), h.no_output⟩
  · rw [if_neg hr]
    exact ⟨⟨h, h.no_input (by simpa using hr), rfl, rfl, rfl⟩, rfl⟩

theorem Coherent.sync {c : Buffered σ} (h : Coherent c) :
    Cleared c c.sync.2 ∧ c.sync.2.put.consumed = 0 := by
  rw [sync_eq]
  by_cases hp : 0 < c.put.consumed
  · have hs := sameRegions_writePending c
    rw [if_pos hp]
    refine ⟨⟨coherent_reset (h.congr hs).closed, rfl, hs.isOpen, hs.mode, hs.buffer⟩, ?_⟩
    unfold reset
    by_cases hw : c.writePending.2.mode.isWritable = true
    · simp only [if_pos hw]
      rfl
    · simp only [if_neg hw]
      rfl
  · obtain ⟨hc, hput⟩ := h.yieldInput
    rw [if_neg hp]
    refine ⟨hc, ?_⟩
    rw [hput]
    omega

theorem yieldInput_openPut (c : Buffered σ) : c.openPut.yieldInput = c.yieldInput.openPut := by
  obtain ⟨device, error, _, hd⟩ := discardInput_spec c
  rw [openPut_spec, openPut_spec]
  unfold Buffered.yieldInput
  by_cases hr : c.mode.isReadable = true
  · rw [if_pos hr, if_pos hr, hd, show c.discardInput = _ from hd c.put]
    rfl
  · rw [if_neg hr, if_neg hr]

/-- Room that is opened before a sync is there after it as well. -/
theorem Coherent.sync_openPut {c : Buffered σ} (h : Coherent c) :
    c.openPut.sync = (c.sync.1, c.sync.2.openPut) := by
  rw [sync_eq, sync_eq]
  by_cases hp : 0 < c.put.consumed
  · have hopen : c.openPut = c := by
      rw [openPut_spec, Region.isCollapsed_of_consumed hp]
      rfl
    have hw : c.mode.isWritable = true := by
      by_cases hw : c.mode.isWritable = true
      · exact hw
      · rw [h.no_output (by simpa using hw)] at hp
        cases hp
    have hput : c.writePending.2.reset.put = c.writePending.2.wholeBuffer := by
      unfold reset
      rw [(sameRegions_writePending c).mode, if_pos hw]
    rw [hopen, if_pos hp, openPut_of_whole hput]
  · rw [if_neg hp, if_neg (consumed_openPut hp), yieldInput_openPut]

end ByteChannel.Buffered
