import ByteChannel.Proofs.Buffered.Input

/-!
# What input draws from the device

An input call on a channel with no output waiting takes its bytes out of what is unread, and asks
the device once at most. What an intake adds goes behind what is unread, and a failure that the
intake reports is latched. This holds over every device.
-/

namespace ByteChannel.Buffered

variable {σ : Type} {c c' c'' : Buffered σ} {d : σ} {bs : Bytes}

theorem takeHeld_same (c : Buffered σ) (n : Nat) :
    (c.takeCell.2.takeAhead n).2.device = c.device ∧
      (c.takeCell.2.takeAhead n).2.text = c.text ∧
      (c.takeCell.2.takeAhead n).2.error = c.error ∧
      (c.takeCell.2.takeAhead n).2.pushedBack = c.pushedBack := by
  unfold takeCell
  by_cases hc : c.onCell = true
  · rw [if_pos hc]
    exact ⟨rfl, rfl, rfl, rfl⟩
  · rw [if_neg hc]
    exact ⟨rfl, rfl, rfl, rfl⟩

/-- An open channel to read from, where no output waits. -/
structure Listening (c : Buffered σ) : Prop where
  coherent : Coherent c
  canRead : c.canRead = true
  idle : c.put.consumed = 0

theorem Inward.listening (h : Inward c) : Listening c where
  coherent := h.coherent
  canRead := by rw [Buffered.canRead, h.isOpen, h.readable]; rfl
  idle := by rw [h.put]; rfl

theorem Listening.exists_device (h : Listening c) : ∃ d, c.device = some d :=
  Option.isSome_iff_exists.1 (Bool.and_eq_true_iff.1 h.canRead).1

variable [Device σ]

/-- The device is asked where nothing is unread. A short rest comes by way of the buffer, which may
be asked for more, a long one past it. -/
theorem Inward.takeFresh_received (h : Inward c) (hc : c.onCell = false) (hd : c.device = some d)
    {n : Nat} (hn : n ≠ 0) :
    ∃ room, n ≤ room ∧ (c.takeFresh n).1 = (receive d c.text room).1.bytes.take n ∧
      (c.takeFresh n).2.stock = (receive d c.text room).1.bytes.drop n ∧
      (c.takeFresh n).2.device = some (receive d c.text room).2 ∧
      (c.takeFresh n).2.text = c.text ∧
      (c.takeFresh n).2.error = c.error.or (receive d c.text room).1.error := by
  unfold Buffered.takeFresh
  rw [if_neg hn]
  by_cases hl : n < c.buffer.length
  · have hin := inward_refill h.isOpen h.readable h.put hc (min n c.refill.filled)
    have hfill : c.refill.buffer.take c.refill.filled =
        (receive d c.text c.buffer.length).1.bytes := by
      simp only [refill, hd, latch, overwrite_zero, List.take_left]
    have hfilled : c.refill.filled = (receive d c.text c.buffer.length).1.bytes.length := by
      simp only [refill, hd, latch]
    rw [if_pos hl]
    refine ⟨c.buffer.length, Nat.le_of_lt hl, ?_, ?_, ?_⟩
    · change c.refill.buffer.take (min n c.refill.filled) = _
      rw [← List.take_take, hfill]
    · rw [stock_of_clamped rfl hin.filled_le ((refills_refill c).onCell.trans hc), hfill, hfilled]
      by_cases hle : n ≤ (receive d c.text c.buffer.length).1.bytes.length
      · rw [Nat.min_eq_left hle]
      · have hle' := Nat.le_of_not_le hle
        rw [Nat.min_eq_right hle', List.drop_length, List.drop_eq_nil_of_le hle']
    · simp only [refill, hd, latch, and_self]
  · have hle := length_receive_le d c.text n
    rw [if_neg hl]
    refine ⟨n, Nat.le_refl n, ?_, ?_, ?_⟩
    · simp only [readDirect, hd, List.take_of_length_le hle]
    · rw [List.drop_eq_nil_of_le hle, stock_of_clamped (k := 0) rfl (Nat.zero_le _)]
      · rfl
      · exact ((sameRegions_readDirect c n).onCell).trans hc
    · simp only [readDirect, hd, latch, and_self]

/-- A read takes what is unread, and what is missing then fresh from the device. -/
theorem Coherent.read_eq (h : Coherent c) (hr : c.canRead = true) {n : Nat} (hn : n ≠ 0) :
    let turned := Buffered.turnToInput { c with pushedBack := false }
    ∃ c₁ : Buffered σ, Inward c₁ ∧ c₁.onCell = false ∧
      c₁.device = turned.device ∧ c₁.text = turned.text ∧ c₁.error = turned.error ∧
      c₁.pushedBack = turned.pushedBack ∧ c₁.stock = turned.stock.drop n ∧
      c.read n = (turned.stock.take n ++ (c₁.takeFresh (n - turned.stock.length)).1,
        (c₁.takeFresh (n - turned.stock.length)).2) := by
  intro turned
  have hcr : ¬ (n = 0 ∨ c.canRead = false) := by simp [hn, hr]
  obtain ⟨hopen, hmode⟩ := Bool.and_eq_true_iff.1 hr
  let held := turned.takeCell
  let ahead := held.2.takeAhead (n - held.1.length)
  let fresh := ahead.2.takeFresh (n - held.1.length - ahead.1.length)
  have hread : c.read n = (held.1 ++ ahead.1 ++ fresh.1, fresh.2) := if_neg hcr
  have hinward : Inward turned := (h.pushedBack false).turnToInput hopen hmode
  obtain ⟨htake, hdrop, hin, hcell⟩ := hinward.takeStock hn
  change held.1 ++ ahead.1 = turned.stock.take n at htake
  obtain ⟨hdevice, htext, herror, hback⟩ := takeHeld_same turned (n - held.1.length)
  have hmissing : n - held.1.length - ahead.1.length = n - turned.stock.length := by
    have hl := congrArg List.length htake
    rw [List.length_append, List.length_take] at hl
    omega
  refine ⟨ahead.2, hin, hcell, hdevice, htext, herror, hback, hdrop, ?_⟩
  rw [hread, htake, ← hmissing]

/-- `bs` were taken out of what is unread, or out of that and of what one intake adds. -/
inductive Draws (c : Buffered σ) (bs : Bytes) (c' : Buffered σ) : Prop
  | stay (hstock : c.stock = bs ++ c'.stock) (hdevice : c'.device = c.device)
    (htext : c'.text = c.text) (herror : c'.error = c.error)
  | draw {d : σ} (room : Nat) (hd : c.device = some d)
    (hstock : c.stock ++ (receive d c.text room).1.bytes = bs ++ c'.stock)
    (hdevice : c'.device = some (receive d c.text room).2) (htext : c'.text = c.text)
    (herror : c'.error = c.error.or (receive d c.text room).1.error)

namespace Draws

theorem refl (c : Buffered σ) : Draws c [] c := .stay rfl rfl rfl rfl

theorem text_eq (h : Draws c bs c') : c'.text = c.text := by cases h <;> assumption

theorem take (h : Draws c [] c') (hstock : c'.stock = bs ++ c''.stock)
    (hdevice : c''.device = c'.device) (htext : c''.text = c'.text)
    (herror : c''.error = c'.error) : Draws c bs c'' := by
  cases h with
  | stay hs hd ht he =>
    exact .stay (hs.trans hstock) (hdevice.trans hd) (htext.trans ht) (herror.trans he)
  | draw room hd hs hd' ht he =>
    exact .draw room hd (hs.trans hstock) (hdevice.trans hd') (htext.trans ht) (herror.trans he)

end Draws

namespace Listening

theorem turnToInput_eq (h : Listening c) : c.turnToInput = { c with put := .empty } := by
  have hz : ¬ 0 < c.put.consumed := by
    rw [h.idle]
    exact Nat.lt_irrefl 0
  rw [Buffered.turnToInput, if_neg hz]

theorem read (h : Listening c) (n : Nat) :
    Listening (c.read n).2 ∧ Draws c (c.read n).1 (c.read n).2 := by
  by_cases hn : n = 0
  · have hread : c.read n = ([], c) := if_pos (.inl hn)
    rw [hread]
    exact ⟨h, .refl c⟩
  have hback : Listening { c with pushedBack := false } :=
    ⟨h.coherent.pushedBack false, h.canRead, h.idle⟩
  have hread := h.coherent.read_eq h.canRead hn
  rw [hback.turnToInput_eq] at hread
  obtain ⟨c₁, hin, hcell, hdevice, htext, herror, -, hdrop, hread⟩ := hread
  change c₁.stock = c.stock.drop n at hdrop
  change c.read n = (c.stock.take n ++ (c₁.takeFresh (n - c.stock.length)).1,
    (c₁.takeFresh (n - c.stock.length)).2) at hread
  rw [hread]
  refine ⟨(hin.takeFresh hcell _).listening, ?_⟩
  by_cases hm : n - c.stock.length = 0
  · -- what is unread is enough
    have hfresh : c₁.takeFresh (n - c.stock.length) = ([], c₁) := if_pos hm
    rw [hfresh]
    refine .stay ?_ hdevice htext herror
    rw [List.append_nil, hdrop, List.take_append_drop]
  · obtain ⟨d, hd⟩ := h.exists_device
    obtain ⟨room, -, hbytes, hrest, hd', htext', herror'⟩ :=
      hin.takeFresh_received hcell (hdevice.trans hd) hm
    rw [htext] at hbytes hrest hd' htext' herror'
    rw [herror] at herror'
    refine .draw room hd ?_ hd' htext' herror'
    have hall : c.stock.take n = c.stock := List.take_of_length_le (by omega)
    rw [hall, List.append_assoc, hbytes, hrest, List.take_append_drop]

end Listening

/-- A peek shows the first byte of what is unread then. -/
structure Peeked (c : Buffered σ) : Prop where
  listening : Listening c.peek.2
  draws : Draws c [] c.peek.2
  head : c.peek.1 = c.peek.2.stock.head?

namespace Listening

theorem peek_of_parked (h : Listening c) (ha : ¬ 0 < c.get.available)
    (hparked : c.onCell = true ∧ 0 < c.filled) : Peeked c := by
  have hcoh := h.coherent.peek
  have hcr : ¬ c.canRead = false := by simp [h.canRead]
  let c' := { c with onCell := false, get := .clamped 0 0 c.filled }
  have hpeek : c.peek = (some (c.buffer.getD 0 0), c') := by
    rw [Buffered.peek, if_neg hcr, if_neg ha, if_pos hparked]
  have hstock : c'.stock = c.stock :=
    h.coherent.stock_unpark hparked.1 (Nat.eq_zero_of_not_pos ha)
  rw [hpeek] at hcoh
  have havail : 0 < c'.get.available := by
    rw [Region.available_clamped]
    exact hparked.2
  constructor
  · rw [hpeek]
    exact ⟨hcoh, h.canRead, h.idle⟩
  · rw [hpeek]
    exact .stay hstock.symm rfl rfl rfl
  · rw [hpeek, head?_stock hcoh havail]
    rfl

theorem peek_of_unbuffered (h : Listening c) (ha : ¬ 0 < c.get.available)
    (hparked : ¬ (c.onCell = true ∧ 0 < c.filled)) (hb : c.buffer = []) : Peeked c := by
  have hcoh := h.coherent.peek
  have hcr : ¬ c.canRead = false := by simp [h.canRead]
  obtain ⟨d, hd⟩ := h.exists_device
  have hread : readDirect { c with filled := 0 } 1 = ((receive d c.text 1).1.bytes, { c with
      filled := 0
      device := some (receive d c.text 1).2
      error := c.error.or (receive d c.text 1).1.error }) := by
    simp only [Buffered.readDirect, hd, latch]
  have hl := length_receive_le d c.text 1
  let c' := { c with
    filled := 0
    device := some (receive d c.text 1).2
    error := c.error.or (receive d c.text 1).1.error
    cell := (receive d c.text 1).1.bytes.headD 0
    onCell := true
    get := .clamped 0 0 (receive d c.text 1).1.bytes.length }
  have hpeek : c.peek = ((receive d c.text 1).1.bytes.head?, c') := by
    rw [Buffered.peek, if_neg hcr, if_neg ha, if_neg hparked, if_pos hb, hread]
  have hstock : c'.stock = (receive d c.text 1).1.bytes :=
    stock_toCell (c := { c with
      filled := 0
      device := some (receive d c.text 1).2
      error := c.error.or (receive d c.text 1).1.error }) hb hl
  rw [hpeek] at hcoh
  constructor
  · rw [hpeek]
    exact ⟨hcoh, (Bool.and_eq_true_iff.1 h.canRead).2, h.idle⟩
  · rw [hpeek]
    refine .draw 1 hd ?_ rfl rfl rfl
    rw [h.coherent.stock_eq_nil ha hparked, hstock, List.nil_append]
  · rw [hpeek, hstock]

theorem peek_of_refill (h : Listening c) (ha : ¬ 0 < c.get.available)
    (hparked : ¬ (c.onCell = true ∧ 0 < c.filled)) (hb : c.buffer ≠ []) : Peeked c := by
  have hcoh := h.coherent.peek
  have hcr : ¬ c.canRead = false := by simp [h.canRead]
  obtain ⟨d, hd⟩ := h.exists_device
  have hl := length_receive_le d c.text c.buffer.length
  let bs := (receive d c.text c.buffer.length).1.bytes
  let c' := { c with
    put := .empty
    onCell := false
    device := some (receive d c.text c.buffer.length).2
    buffer := overwrite c.buffer 0 bs
    filled := bs.length
    error := c.error.or (receive d c.text c.buffer.length).1.error
    get := .clamped 0 0 bs.length }
  have hpeek : c.peek = (if 0 < bs.length then some (c'.buffer.getD 0 0) else none, c') := by
    rw [Buffered.peek, if_neg hcr, if_neg ha, if_neg hparked, if_neg hb, h.turnToInput_eq]
    simp only [refill, hd, latch]
    rfl
  have htake : c'.buffer.take bs.length = bs := by
    change (overwrite c.buffer 0 bs).take bs.length = bs
    rw [overwrite_zero, List.take_left]
  rw [hpeek] at hcoh
  have hstock : c'.stock = bs := (stock_of_clamped (k := 0) rfl hcoh.filled_le rfl).trans htake
  constructor
  · rw [hpeek]
    exact ⟨hcoh, (Bool.and_eq_true_iff.1 h.canRead).2, rfl⟩
  · rw [hpeek]
    refine .draw c.buffer.length hd ?_ rfl rfl rfl
    rw [h.coherent.stock_eq_nil ha hparked, hstock, List.nil_append]
  · rw [hpeek]
    change (if 0 < bs.length then some c'.current else none) = c'.stock.head?
    by_cases hbs : 0 < bs.length
    · have havail : 0 < c'.get.available := by
        rw [Region.available_clamped]
        exact hbs
      rw [if_pos hbs, head?_stock hcoh havail]
    · rw [if_neg hbs, hstock, List.length_eq_zero_iff.1 (Nat.eq_zero_of_not_pos hbs)]
      rfl

theorem peek (h : Listening c) : Peeked c := by
  by_cases ha : 0 < c.get.available
  · have hpeek : c.peek = (some c.current, c) := by
      rw [Buffered.peek, if_neg (by simp [h.canRead]), if_pos ha]
    constructor
    · rw [hpeek]
      exact h
    · rw [hpeek]
      exact .refl c
    · rw [hpeek, head?_stock h.coherent ha]
  by_cases hparked : c.onCell = true ∧ 0 < c.filled
  · exact h.peek_of_parked ha hparked
  by_cases hb : c.buffer = []
  · exact h.peek_of_unbuffered ha hparked hb
  · exact h.peek_of_refill ha hparked hb

end Listening

/-- A byte that is shown is at hand. -/
theorem available_of_peek {b : UInt8} (h : c.peek = (some b, c')) : 0 < c'.get.available := by
  unfold Buffered.peek at h
  by_cases hr : c.canRead = false
  · rw [if_pos hr] at h
    cases h
  rw [if_neg hr] at h
  by_cases ha : 0 < c.get.available
  · rw [if_pos ha] at h
    cases h
    exact ha
  rw [if_neg ha] at h
  by_cases hparked : c.onCell = true ∧ 0 < c.filled
  · rw [if_pos hparked] at h
    cases h
    rw [Region.available_clamped]
    exact hparked.2
  rw [if_neg hparked] at h
  by_cases hb : c.buffer = []
  · rw [if_pos hb] at h
    obtain ⟨hhead, rfl⟩ := Prod.mk.inj h
    rw [Region.available_clamped]
    cases hbs : (readDirect { c with filled := 0 } 1).1 with
    | nil =>
      rw [hbs] at hhead
      cases hhead
    | cons b' bs => exact Nat.succ_pos _
  · rw [if_neg hb] at h
    obtain ⟨hhead, rfl⟩ := Prod.mk.inj h
    rw [Region.available_clamped]
    split at hhead
    · assumption
    · cases hhead

theorem Listening.readByte (h : Listening c) :
    Listening c.readByte.2 ∧ Draws c c.readByte.1.toList c.readByte.2 := by
  obtain ⟨hin, hdraws, hhead⟩ := h.peek
  unfold Buffered.readByte
  rcases hpeek : c.peek with ⟨_ | b, c'⟩
  · rw [hpeek] at hin hdraws
    exact ⟨hin, hdraws⟩
  · rw [hpeek] at hin hdraws hhead
    refine ⟨⟨hin.coherent.advance 1, hin.canRead, hin.idle⟩, hdraws.take ?_ rfl rfl rfl⟩
    obtain ⟨rest, hrest⟩ : ∃ rest, c'.stock = b :: rest := by
      cases hstock : c'.stock with
      | nil =>
        rw [hstock] at hhead
        cases hhead
      | cons b' rest =>
        rw [hstock] at hhead
        cases hhead
        exact ⟨rest, rfl⟩
    have hadvance : (c'.advance 1).stock = c'.stock.drop 1 :=
      stock_bump hin.coherent (available_of_peek hpeek)
    change c'.stock = [b] ++ (c'.advance 1).stock
    rw [hadvance, hrest]
    rfl

end ByteChannel.Buffered
