import ByteChannel.Proofs.Buffered.Held
import ByteChannel.Proofs.Device.Received

/-!
# Output through a failing device

What a write-only channel has passed on and what waits in its buffer make one run of bytes, its
trail. An operation lengthens the trail by what it reports as taken. Where the device fails, bytes
drop out of the trail. None comes in that was not taken, none changes its place, and the failure is
then latched.
-/

namespace ByteChannel.Buffered

variable {σ : Type}

/-- An open channel that only writes, and writes its bytes as they are. -/
structure Outward (c : Buffered σ) : Prop where
  coherent : Coherent c
  isOpen : c.isOpen = true
  unreadable : c.mode.isReadable = false
  writable : c.mode.isWritable = true
  plain : c.expander = none

namespace Outward

variable {c c' : Buffered σ}

theorem unreadCount (h : Outward c) : c.unreadCount = 0 := h.coherent.no_input h.unreadable

theorem canWrite (h : Outward c) : c.canWrite = true := by
  rw [Buffered.canWrite, h.isOpen, h.writable]
  rfl

theorem pushedBack (h : Outward c) (b : Bool) : Outward { c with pushedBack := b } :=
  ⟨h.coherent.pushedBack b, h.isOpen, h.unreadable, h.writable, h.plain⟩

theorem congr (h : Outward c) (hs : SameRegions c c') (hp : c'.expander = none) : Outward c' :=
  ⟨h.coherent.congr hs, hs.isOpen.trans h.isOpen, by rw [hs.mode, h.unreadable],
    by rw [hs.mode, h.writable], hp⟩

theorem reset (h : Outward c) : Outward c.reset :=
  ⟨coherent_reset h.coherent.closed, h.isOpen, h.unreadable, h.writable, h.plain⟩

theorem clearError (h : Outward c) : Outward { c with error := none } :=
  h.congr (by constructor <;> rfl) h.plain

end Outward

variable [Device σ] [Receiver σ] {c c' c₁ : Buffered σ} {bs bs' : Bytes} {whole whole' : Prop}

omit [Device σ] [Receiver σ] in
theorem isFailed_eq_false : c.isFailed = false ↔ c.error = none := by
  rw [isFailed, Option.isSome_eq_false_iff, Option.isNone_iff_eq_none]

/-- What the device of an open channel has received. -/
def received (c : Buffered σ) : Bytes := (c.device.map Receiver.received).getD []

/-- Everything that is passed on or waits. -/
def trail (c : Buffered σ) : Bytes := c.received ++ c.pending

/-- `c'` comes from `c` by taking `bs`, perhaps with losses. -/
structure Follows (c c' : Buffered σ) (bs : Bytes) : Prop where
  outward : Outward c'
  received_prefix : c.received <+: c'.received
  trail_sublist : c'.trail.Sublist (c.trail ++ bs)

/-- There is no loss if the operation did the `whole` of what it was to do, and every other one is
latched. -/
structure Moves (c c' : Buffered σ) (bs : Bytes) (whole : Prop) : Prop
    extends Follows c c' bs where
  trail_eq : whole → c'.trail = c.trail ++ bs
  error_eq : c'.error = none → whole ∧ c.error = none

theorem Follows.trans (h : Follows c c₁ bs) (h' : Follows c₁ c' bs') :
    Follows c c' (bs ++ bs') where
  outward := h'.outward
  received_prefix := h.received_prefix.trans h'.received_prefix
  trail_sublist := by
    rw [← List.append_assoc]
    exact h'.trail_sublist.trans (h.trail_sublist.append_right bs')

theorem Follows.clearError (h : Follows c c' bs) : Follows c { c' with error := none } bs :=
  ⟨h.outward.clearError, h.received_prefix, h.trail_sublist⟩

theorem Moves.trans (h : Moves c c₁ bs whole) (h' : Moves c₁ c' bs' whole') :
    Moves c c' (bs ++ bs') (whole ∧ whole') where
  toFollows := h.toFollows.trans h'.toFollows
  trail_eq hw := by rw [h'.trail_eq hw.2, h.trail_eq hw.1, List.append_assoc]
  error_eq he := by
    obtain ⟨hw', he'⟩ := h'.error_eq he
    obtain ⟨hw, he⟩ := h.error_eq he'
    exact ⟨⟨hw, hw'⟩, he⟩

theorem Moves.congr (h : Moves c c' bs whole) (hbs : bs = bs') (hwhole : whole ↔ whole') :
    Moves c c' bs' whole' := by
  subst hbs
  rwa [← propext hwhole]

theorem Moves.of_error_eq_none (h : Moves c c' bs whole) (he : c'.error = none) :
    c'.trail = c.trail ++ bs ∧ c.error = none :=
  ⟨h.trail_eq (h.error_eq he).1, (h.error_eq he).2⟩

theorem Follows.received_sublist (h : Follows c c' bs) : c'.received.Sublist (c.trail ++ bs) :=
  (List.sublist_append_left _ _).trans h.trail_sublist

theorem received_of_pending (hp : c.pending = []) : c.received = c.trail := by
  rw [trail, hp, List.append_nil]

theorem Outward.device (h : Outward c) :
    ∃ d, c.device = some d ∧ c.received = Receiver.received d := by
  obtain ⟨d, hd⟩ := Option.isSome_iff_exists.1 h.isOpen
  exact ⟨d, hd, by rw [Buffered.received, hd]; rfl⟩

/-- Where nothing is sent and the latch stays as it is, the trail only grows. -/
theorem Moves.of_unsent (h : Outward c') (hr : c'.received = c.received)
    (hp : c'.pending = c.pending ++ bs) (he : c'.error = c.error) : Moves c c' bs True := by
  have ht : c'.trail = c.trail ++ bs := by rw [trail, trail, hr, hp, List.append_assoc]
  exact ⟨⟨h, hr ▸ List.prefix_refl _, ht ▸ List.Sublist.refl _⟩, fun _ => ht,
    fun hn => ⟨trivial, he.symm.trans hn⟩⟩

/-! ## Sending -/

/-- A move to the end, where one is made, passes nothing on. -/
theorem toEnd_received (d : σ) (moves : Bool) :
    ∃ r d', (if moves then Device.seek d (.finish 0) else (.ok 0, d)) = (r, d') ∧
      Receiver.received d' = Receiver.received d := by
  cases moves with
  | false => exact ⟨_, _, rfl, rfl⟩
  | true => exact ⟨_, _, rfl, Receiver.received_seek d _⟩

theorem send_received (d : σ) (append : Bool) (src : Bytes) :
    ∃ k error d', send d none append src = (⟨k, error⟩, none, d') ∧ k ≤ src.length ∧
      Receiver.received d' = Receiver.received d ++ src.take k ∧
      (error = none → k = src.length) := by
  obtain ⟨r, d₁, hm, hd₁⟩ := toEnd_received d append
  unfold send
  simp only [hm]
  cases r with
  | error e => exact ⟨0, some e, d₁, rfl, Nat.zero_le _, by simpa using hd₁, fun hn => by cases hn⟩
  | ok pos =>
    obtain ⟨k, error, d', hr, hk, hd', herror⟩ := Receiver.writeFully_received d₁ src
    simp only [hr]
    exact ⟨k, error, d', rfl, hk, hd₁ ▸ hd', herror.1⟩

namespace Outward

theorem writeDirect (h : Outward c) (src : Bytes) :
    ∃ k c', c.writeDirect src = (k, c') ∧ k ≤ src.length ∧ SameRegions c c' ∧ Outward c' ∧
      c'.received = c.received ++ src.take k ∧
      (c'.error = none → k = src.length ∧ c.error = none) := by
  obtain ⟨d, hd⟩ := Option.isSome_iff_exists.1 h.isOpen
  obtain ⟨k, error, d', hr, hk, hd', herror⟩ := send_received d c.mode.append src
  have hsame := sameRegions_writeDirect c src
  have hwrite : c.writeDirect src =
      (k, { c with device := some d', expander := none }.latch error) := by
    simp only [Buffered.writeDirect, hd, h.plain, hr]
  rw [hwrite] at hsame
  refine ⟨k, _, hwrite, hk, hsame, h.congr hsame rfl, ?_, fun he => ?_⟩
  · simpa [received, latch, hd] using hd'
  · obtain ⟨hc, hnone⟩ := Option.or_eq_none_iff.1 he
    exact ⟨herror hnone, hc⟩

theorem writeDirect_moves (h : Outward c) (hp : c.pending = []) (src : Bytes) :
    ∃ k c', c.writeDirect src = (k, c') ∧ k ≤ src.length ∧
      Moves c c' (src.take k) (k = src.length) := by
  obtain ⟨k, c', hr, hk, hs, hc', hgot, herror⟩ := h.writeDirect src
  have ht : c'.trail = c.trail ++ src.take k := by
    rw [trail, trail, hs.pending, hgot, hp, List.append_nil, List.append_nil]
  exact ⟨k, c', hr, hk, ⟨hc', hgot ▸ List.prefix_append _ _, ht ▸ List.Sublist.refl _⟩, fun _ => ht,
    herror⟩

/-- A sync leaves nothing waiting, so that nothing is sent twice. What it could not send is lost. -/
theorem sync (h : Outward c) :
    ∃ ok c', c.sync = (ok, c') ∧ c'.pending = [] ∧ Moves c c' [] (ok = true) := by
  rw [sync_eq]
  by_cases hc : 0 < c.put.consumed
  · obtain ⟨k, c', hr, hk, hs, hc', hgot, herror⟩ := h.writeDirect c.pending
    have hpending : c.writePending = (k == c.put.consumed, c') := by
      rw [writePending, if_pos h.isOpen, hr]
    -- the reset drops what was not sent: the trail keeps `k` of the bytes that waited
    have ht : c'.reset.trail = c.received ++ c.pending.take k := by
      rw [trail, pending_reset, List.append_nil]
      exact hgot
    rw [length_pending h.coherent] at hk herror
    rw [if_pos hc, hpending]
    refine ⟨_, _, rfl, pending_reset c', ⟨hc'.reset, ?_, ?_⟩, ?_, ?_⟩
    · exact ⟨_, hgot.symm⟩
    · rw [ht, List.append_nil]
      exact (List.take_sublist k c.pending).append_left c.received
    · intro hok
      have hlen : k = c.pending.length := (beq_iff_eq.1 hok).trans (length_pending h.coherent).symm
      rw [ht, hlen, List.take_length, List.append_nil]
      rfl
    · intro he
      obtain ⟨hlen, hc⟩ := herror he
      exact ⟨beq_iff_eq.2 hlen, hc⟩
  · have hp : c.pending = [] := by
      rw [← List.length_eq_zero_iff, length_pending h.coherent]
      omega
    have hy : c.yieldInput = c := if_neg (by simp [h.unreadable])
    rw [if_neg hc, hy]
    exact ⟨true, c, rfl, hp, (Moves.of_unsent h rfl (by simp) rfl).congr rfl (by simp)⟩

/-! ## Through the buffer -/

theorem openPut (h : Outward c) : Moves c c.openPut [] True := by
  have hc := h.coherent.openPut h.writable h.unreadCount
  have hp := pending_openPut h.coherent
  rw [openPut_spec] at hc hp ⊢
  exact .of_unsent ⟨hc, h.isOpen, h.unreadable, h.writable, h.plain⟩ rfl
    (by rw [hp, List.append_nil]) rfl

theorem place (h : Outward c) (hb : bs.length ≤ c.put.available) : Moves c (c.place bs) bs True :=
  .of_unsent ⟨h.coherent.place hb, h.isOpen, h.unreadable, h.writable, h.plain⟩ rfl
    (pending_place h.coherent hb) rfl

/-- A byte that is refused is not in the trail. -/
theorem overflow (h : Outward c) (b : UInt8) :
    ∃ ok c', c.overflow b = (ok, c') ∧ Moves c c' (if ok then [b] else []) (ok = true) := by
  unfold Buffered.overflow
  rw [if_neg (by simp [h.canWrite])]
  by_cases hb : c.buffer = []
  · have hp : c.pending = [] := by
      rw [← List.length_eq_zero_iff, length_pending h.coherent,
        Region.consumed_of_isCollapsed (h.coherent.isCollapsed_of_nil hb)]
    obtain ⟨k, c', hr, hk, hm⟩ := h.writeDirect_moves hp [b]
    simp only [if_pos hb, h.unreadable, Bool.false_eq_true, if_false, hr]
    refine ⟨_, _, rfl, hm.congr ?_ beq_iff_eq.symm⟩
    obtain rfl | rfl : k = 0 ∨ k = 1 := by simpa [Nat.le_one_iff_eq_zero_or_eq_one] using hk
    · rfl
    · rfl
  · obtain ⟨ok, c₁, hr, _, hm⟩ := h.sync
    obtain ⟨hs, hz⟩ := h.coherent.sync
    rw [hr] at hs hz
    have hm₁ := hm.trans hm.outward.openPut
    rw [if_neg hb, h.coherent.sync_openPut, hr]
    cases ok with
    | false => exact ⟨false, c₁.openPut, rfl, hm₁.congr rfl (by simp)⟩
    | true =>
      have hroom : [b].length ≤ c₁.openPut.put.available := by
        rw [hs.coherent.put_openPut hz, wholeBuffer, Region.available_clamped, hs.buffer]
        exact List.length_pos_iff.2 hb
      exact ⟨true, c₁.openPut.place [b], rfl,
        (hm₁.trans (hm₁.outward.place hroom)).congr rfl (by simp)⟩

theorem writeByte (h : Outward c) (b : UInt8) :
    ∃ ok c', c.writeByte b = (ok, c') ∧ Moves c c' (if ok then [b] else []) (ok = true) := by
  unfold Buffered.writeByte
  by_cases ha : 0 < c.put.available ∧ c.canWrite = true
  · have hone : [b].length ≤ c.put.available := ha.1
    have hm := h.place hone
    rw [if_pos ha]
    exact ⟨true, _, rfl, ⟨⟨hm.outward.pushedBack false, hm.received_prefix, hm.trail_sublist⟩,
      fun _ => hm.trail_eq trivial, fun he => ⟨rfl, (hm.error_eq he).2⟩⟩⟩
  · rw [if_neg ha]
    exact h.overflow b

theorem store (h : Outward c) (src : Bytes) :
    ∃ k c', c.store src = (k, c') ∧ k ≤ src.length ∧ Moves c c' (src.take k) (k = src.length) := by
  fun_induction Buffered.store c src with
  | case1 c =>
    exact ⟨0, c, rfl, Nat.le_refl _, (Moves.of_unsent h rfl (by simp) rfl).congr rfl (by simp)⟩
  | case2 c b bs ha n more =>
    rename_i ih
    have hn : ((b :: bs).take n).length = n := List.length_take_of_le (Nat.min_le_right _ _)
    have hm := h.place (Nat.le_trans (Nat.le_of_eq hn) (Nat.min_le_left _ _))
    obtain ⟨k, c', hr, hk, hm'⟩ := ih hm.outward
    have hle : n ≤ (b :: bs).length := Nat.min_le_right _ _
    rw [List.length_drop] at hk hm'
    rw [show more = _ from hr]
    have hsum : (True ∧ k = (b :: bs).length - n) ↔ n + k = (b :: bs).length := by
      rw [true_and]
      omega
    exact ⟨n + k, c', rfl, by omega, (hm.trans hm').congr List.take_add.symm hsum⟩
  | case3 c b bs ha r hr more =>
    rename_i ih
    obtain ⟨ok, c₁, hr₁, hm⟩ := h.overflow b
    have hc₁ : r.2 = c₁ := congrArg Prod.snd hr₁
    have hok : ok = true := (congrArg Prod.fst hr₁).symm.trans hr
    subst hok
    obtain ⟨k, c', hr', hk, hm'⟩ := ih (hc₁ ▸ hm.outward)
    rw [show more = _ from hr']
    exact ⟨k + 1, c', rfl, Nat.succ_le_succ hk, (hm.trans (hc₁ ▸ hm')).congr rfl (by simp)⟩
  | case4 c b bs ha r hr =>
    obtain ⟨ok, c₁, hr₁, hm⟩ := h.overflow b
    have hc₁ : r.2 = c₁ := congrArg Prod.snd hr₁
    have hok : ok = false := by simpa [r, hr₁] using hr
    subst hok
    exact ⟨0, r.2, rfl, Nat.zero_le _, (hc₁ ▸ hm).congr rfl (by simp)⟩

theorem write (h : Outward c) (src : Bytes) :
    ∃ k c', c.write src = (k, c') ∧ k ≤ src.length ∧ Moves c c' (src.take k) (k = src.length) := by
  have hpb := h.pushedBack false
  have hfirst : Moves c { c with pushedBack := false } [] True :=
    .of_unsent hpb rfl (by simp [pending]) rfl
  unfold Buffered.write
  rw [if_neg (by simp [h.canWrite])]
  by_cases hl : c.buffer.length < src.length
  · obtain ⟨ok, c₁, hr, hp, hm⟩ := hpb.sync
    simp only [if_pos hl, hr]
    cases ok with
    | false => exact ⟨0, c₁, rfl, Nat.zero_le _, (hfirst.trans hm).congr rfl (by simp; omega)⟩
    | true =>
      obtain ⟨k, c', hr', hk, hm'⟩ := hm.outward.writeDirect_moves hp src
      exact ⟨k, c', hr', hk, ((hfirst.trans hm).trans hm').congr rfl (by simp)⟩
  · simp only [if_neg hl, h.unreadable, Bool.false_eq_true, if_false]
    by_cases hb : c.buffer = []
    · rw [if_pos hb]
      obtain ⟨k, c', hr, hk, hm⟩ := hpb.store src
      exact ⟨k, c', hr, hk, (hfirst.trans hm).congr rfl (by simp)⟩
    · rw [if_neg hb]
      have hopen := hfirst.trans hpb.openPut
      obtain ⟨k, c', hr, hk, hm⟩ := hopen.outward.store src
      exact ⟨k, c', hr, hk, (hopen.trans hm).congr rfl (by simp)⟩

/-! ## Sessions -/

theorem of_attach {d : σ} {mode : OpenMode} (h : c.attach d mode = .ok c')
    (hw : mode.isWritable = true) (hr : mode.isReadable = false)
    (hplain : (!mode.binary && c.settings.textPolicy.translates) = false) :
    Outward c' ∧ c'.received = Receiver.received d ∧ c'.pending = [] := by
  have hc := coherent_attach h
  obtain ⟨_, d₁, hm, hd₁⟩ := toEnd_received d mode.startsAtEnd
  obtain ⟨-, _, d', hmoved, rfl⟩ := attach_inv h
  rw [hm] at hmoved
  cases hmoved
  have hexpander : (c.openedOver d₁ mode).expander = none := if_neg (by simp [hplain])
  exact ⟨⟨hc, rfl, hr, hw, hexpander⟩, hd₁, pending_reset _⟩

/-- A flush that succeeds leaves nothing waiting, and one that does not says so. -/
theorem flush (h : Outward c) :
    ∃ c', (c.flush = (.ok (), c') ∧ c'.pending = [] ∧ Moves c c' [] True) ∨
      ∃ m, c.flush = (.error (.flushFailed m), c') ∧ Follows c c' [] := by
  obtain ⟨ok, c', hr, hp, hm⟩ := h.sync
  unfold Buffered.flush
  rw [if_neg (by simp [h.isOpen]), hr]
  cases ok with
  | true => exact ⟨c', .inl ⟨rfl, hp, hm.congr rfl (by simp)⟩⟩
  | false => exact ⟨_, .inr ⟨_, rfl, hm.toFollows.clearError⟩⟩

/-- After a flush that succeeds the device has received the whole trail. -/
theorem received_flush (h : Outward c) (hok : c.flush.1 = .ok ()) :
    ∃ d, c.flush.2.device = some d ∧ Receiver.received d = c.trail := by
  obtain ⟨c', ⟨hr, hp, hm⟩ | ⟨m, hr, _⟩⟩ := h.flush
  · obtain ⟨d, hd, hgot⟩ := hm.outward.device
    rw [hr]
    refine ⟨d, hd, ?_⟩
    rw [← hgot, received_of_pending hp, hm.trail_eq trivial, List.append_nil]
  · rw [hr] at hok
    cases hok

theorem installBuffer (h : Outward c) (buffer : Bytes) :
    ∃ c', (c.installBuffer buffer = (.ok (), c') ∧ Moves c c' [] True) ∨
      ∃ m, c.installBuffer buffer = (.error (.flushFailed m), c') ∧ Follows c c' [] := by
  obtain ⟨ok, c₁, hr, hp, hm⟩ := h.sync
  unfold Buffered.installBuffer
  rw [if_neg (by simp [h.unreadCount]), if_pos h.isOpen, hr]
  cases ok with
  | true =>
    let fresh : Buffered σ := { c₁ with buffer := buffer, adopted := true }
    have hc : Outward fresh.reset :=
      ⟨coherent_reset hm.outward.coherent.closed, hm.outward.isOpen, hm.outward.unreadable,
        hm.outward.writable, hm.outward.plain⟩
    have hnew : Moves c₁ fresh.reset [] True :=
      .of_unsent hc rfl (by rw [pending_reset, hp, List.append_nil]) rfl
    exact ⟨_, .inl ⟨rfl, (hm.trans hnew).congr rfl (by simp)⟩⟩
  | false => exact ⟨_, .inr ⟨_, rfl, hm.toFollows.clearError⟩⟩

/-- Closing gives the device back. If it succeeds the device has received the whole trail. -/
theorem close (h : Outward c) :
    ∃ d, c.close.2.2 = some d ∧ c.received <+: Receiver.received d ∧
      (Receiver.received d).Sublist c.trail ∧
      (c.close.1 = .ok () → Receiver.received d = c.trail) := by
  unfold Buffered.close
  rw [if_neg (by simp [h.isOpen])]
  obtain ⟨c', ⟨hr, hp, hm⟩ | ⟨m, hr, hf⟩⟩ := h.flush
  · obtain ⟨d, hd, hgot⟩ := hm.outward.device
    rw [← Receiver.received_close] at hgot
    have ht : c'.received = c.trail := by
      rw [received_of_pending hp, hm.trail_eq trivial, List.append_nil]
    rw [hr]
    simp only [hd]
    have hall := hgot.symm.trans ht
    exact ⟨_, rfl, hgot ▸ hm.received_prefix, hall ▸ List.Sublist.refl _, fun _ => hall⟩
  · obtain ⟨d, hd, hgot⟩ := hf.outward.device
    rw [← Receiver.received_close] at hgot
    have hs := hf.received_sublist
    rw [List.append_nil] at hs
    rw [hr]
    simp only [hd]
    exact ⟨_, rfl, hgot ▸ hf.received_prefix, hgot ▸ hs, fun hn => by cases hn⟩

end Outward

end ByteChannel.Buffered
