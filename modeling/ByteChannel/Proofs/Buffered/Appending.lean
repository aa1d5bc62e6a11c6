import ByteChannel.Proofs.Buffered.Held
import ByteChannel.Proofs.Device.Appendable

/-!
# Output at the end of a device

A channel that appends goes to the end of its device before every transfer out, so that it can only
add to what the device holds. What is laid out so far is the device's bytes and, in the form in
which they will be sent, the bytes that wait. As long as no output failed, an operation lengthens
this by what it counts as taken, whatever was read, pushed back or sought in between.
-/

namespace ByteChannel.Buffered

open Text Watched

variable {σ : Type}

/-- An open channel that appends. -/
structure Appending (c : Buffered (Watched σ)) : Prop where
  coherent : Coherent c
  isOpen : c.isOpen = true
  append : c.mode.append = true

namespace Appending

variable {c : Buffered (Watched σ)}

theorem device (h : Appending c) : ∃ d, c.device = some d := Option.isSome_iff_exists.1 h.isOpen

theorem isWritable (h : Appending c) : c.mode.isWritable = true := by
  simp [OpenMode.isWritable, h.append]

theorem canWrite (h : Appending c) : c.canWrite = true := by
  rw [Buffered.canWrite, h.isOpen, h.isWritable]
  rfl

theorem pending_of_collapsed (h : Appending c) (hp : c.put.isCollapsed = true) :
    c.pending = [] := by
  rw [← List.length_eq_zero_iff, length_pending h.coherent, Region.consumed_of_isCollapsed hp]

end Appending

/-- Output has failed so far. -/
def isBroken (c : Buffered (Watched σ)) : Bool := c.device.any Watched.failed

variable [Device σ] [Appendable σ]

/-- What the device of an open channel holds. -/
def stored (c : Buffered (Watched σ)) : Bytes := (c.device.map Watched.bytes).getD []

/-- What the device holds, and after it what waits. -/
def laid (c : Buffered (Watched σ)) : Bytes := c.stored ++ encoded c.expander.isSome c.pending

/-- `c'` comes from `c` by taking `bs`, and all of it is laid out if no output has failed. -/
structure Lengthens (c c' : Buffered (Watched σ)) (bs : Bytes) : Prop where
  appending : Appending c'
  expander : c'.expander.isSome = c.expander.isSome
  kept : c.stored <+: c'.stored
  exact : c'.isBroken = false →
    c.isBroken = false ∧ c'.laid = c.laid ++ encoded c.expander.isSome bs

variable {c c' c₁ : Buffered (Watched σ)} {bs bs' : Bytes}

theorem Lengthens.trans (h : Lengthens c c₁ bs) (h' : Lengthens c₁ c' bs') :
    Lengthens c c' (bs ++ bs') where
  appending := h'.appending
  expander := h'.expander.trans h.expander
  kept := h.kept.trans h'.kept
  exact hb := by
    obtain ⟨hb₁, hl'⟩ := h'.exact hb
    obtain ⟨hb₀, hl⟩ := h.exact hb₁
    refine ⟨hb₀, ?_⟩
    rw [hl', hl, h.expander, encoded_append, List.append_assoc]

/-- Where a step counts nothing. -/
theorem Lengthens.trans_nil (h : Lengthens c c₁ []) (h' : Lengthens c₁ c' bs) :
    Lengthens c c' bs := h.trans h'

theorem Lengthens.nil_trans (h : Lengthens c c₁ bs) (h' : Lengthens c₁ c' []) :
    Lengthens c c' bs := by
  have := h.trans h'
  rwa [List.append_nil] at this

namespace Appending

/-- A step that sends nothing, over a device that keeps its bytes. -/
theorem lengthens_of_idle {d d' : Watched σ} (h' : Appending c')
    (hd : c.device = some d) (hd' : c'.device = some d') (hidle : Idle d d')
    (hx : c'.expander.isSome = c.expander.isSome) (hp : c'.pending = c.pending ++ bs) :
    Lengthens c c' bs := by
  have hs : c'.stored = c.stored := by
    simp only [stored, hd, hd', Option.map_some, Option.getD_some]
    exact hidle.bytes
  refine ⟨h', hx, hs ▸ List.prefix_refl _, fun hb => ⟨?_, ?_⟩⟩
  · simp only [isBroken, hd, hd', Option.any_some] at hb ⊢
    exact hidle.notes hb
  · rw [laid, laid, hs, hx, hp, encoded_append, List.append_assoc]

/-- A step that leaves the device alone. -/
theorem lengthens_of_same (h : Appending c) (h' : Appending c') (hd : c'.device = c.device)
    (hx : c'.expander = c.expander) (hp : c'.pending = c.pending ++ bs) : Lengthens c c' bs := by
  obtain ⟨d, hd₀⟩ := h.device
  exact lengthens_of_idle h' hd₀ (hd.trans hd₀) (.refl d) (by rw [hx]) hp

theorem refl (h : Appending c) : Lengthens c c [] :=
  h.lengthens_of_same h rfl rfl (List.append_nil _).symm

theorem pushedBack (h : Appending c) (b : Bool) : Lengthens c { c with pushedBack := b } [] :=
  h.lengthens_of_same ⟨h.coherent.pushedBack b, h.isOpen, h.append⟩ rfl rfl
    (List.append_nil _).symm

theorem clearError (h : Appending c) : Lengthens c { c with error := none } [] := by
  have hsame : SameRegions c { c with error := none } := by constructor <;> rfl
  exact h.lengthens_of_same ⟨h.coherent.congr hsame, h.isOpen, h.append⟩ rfl rfl
    (List.append_nil _).symm

theorem advance (h : Appending c) (n : Nat) : Lengthens c (c.advance n) [] :=
  h.lengthens_of_same ⟨h.coherent.advance n, h.isOpen, h.append⟩ rfl rfl (List.append_nil _).symm

/-! ## Sending -/

/-- All of a piece is appended, or the failure is reported and noted. -/
theorem send_append (d : Watched σ) (t : Option Expander) (src : Bytes) :
    ∃ k error t' d', send d t true src = (⟨k, error⟩, t', d') ∧ t'.isSome = t.isSome ∧
      d.bytes <+: d'.bytes ∧
      (d'.failed = false → d.failed = false ∧ k = src.length ∧
        d'.bytes = d.bytes ++ encoded t.isSome src) := by
  obtain ⟨r, d₁, hr, hidle, ⟨pos, rfl, hend⟩ | ⟨e, rfl, hfailed⟩⟩ := seek_end d
  · have hstart : (appendingSink d₁).Took [] d₁ := ⟨id, hend, (List.append_nil _).symm⟩
    have hwhole {d' : Watched σ} {out : Bytes} (h : (appendingSink d₁).Took out d') :
        d.bytes <+: d'.bytes ∧
          (d'.failed = false → d.failed = false ∧ d'.bytes = d.bytes ++ out) := by
      obtain ⟨hn, _, hb⟩ := h
      rw [hidle.bytes] at hb
      exact ⟨hb ▸ List.prefix_append _ _, fun hf => ⟨hidle.notes (hn hf), hb⟩⟩
    have hbroken {d' : Watched σ} (h : (appendingSink d₁).Broke d') :
        d.bytes <+: d'.bytes ∧ d'.failed ≠ false := by
      obtain ⟨hp, hf⟩ := h
      rw [hidle.bytes] at hp
      exact ⟨hp, by rw [hf]; decide⟩
    unfold send
    simp only [if_true, hr]
    cases t with
    | none =>
      rcases (appendingSink d₁).whole src hstart with ⟨d', hw, h⟩ | ⟨k, e, d', hw, h⟩
      · obtain ⟨hp, hall⟩ := hwhole h
        exact ⟨_, none, none, d', by rw [hw], rfl, hp, fun hf => ⟨(hall hf).1, rfl, (hall hf).2⟩⟩
      · obtain ⟨hp, hf⟩ := hbroken h
        exact ⟨k, some e, none, d', by rw [hw], rfl, hp, fun hn => absurd hn hf⟩
    | some t =>
      rcases t.write_whole hstart src with ⟨t', d', hw, h⟩ | ⟨k, e, t', d', hw, h⟩
      · obtain ⟨hp, hall⟩ := hwhole h
        exact ⟨_, none, some t', d', by simp only [hw], rfl, hp,
          fun hf => ⟨(hall hf).1, rfl, (hall hf).2⟩⟩
      · obtain ⟨hp, hf⟩ := hbroken h
        exact ⟨k, some e, some t', d', by simp only [hw], rfl, hp, fun hn => absurd hn hf⟩
  · refine ⟨0, some e, t, d₁, ?_, rfl, hidle.bytes ▸ List.prefix_refl _, fun hn => ?_⟩
    · unfold send
      simp only [if_true, hr]
    · rw [hfailed] at hn
      cases hn

theorem writeDirect_spec (h : Appending c) (src : Bytes) :
    ∃ k c', c.writeDirect src = (k, c') ∧ SameRegions c c' ∧ Appending c' ∧
      c'.expander.isSome = c.expander.isSome ∧ c.stored <+: c'.stored ∧
      (c'.isBroken = false → c.isBroken = false ∧ k = src.length ∧
        c'.stored = c.stored ++ encoded c.expander.isSome src) := by
  obtain ⟨d, hd⟩ := h.device
  obtain ⟨k, error, t', d', hr, hx, hp, hall⟩ := send_append d c.expander src
  have hsame := sameRegions_writeDirect c src
  have hwrite : c.writeDirect src =
      (k, { c with device := some d', expander := t' }.latch error) := by
    simp only [Buffered.writeDirect, hd, h.append, hr]
  rw [hwrite] at hsame
  refine ⟨k, _, hwrite, hsame, ⟨h.coherent.congr hsame, hsame.isOpen.trans h.isOpen, ?_⟩, hx,
    ?_, ?_⟩
  · exact h.append
  · simpa [stored, latch, hd] using hp
  · simpa [stored, isBroken, latch, hd] using hall

/-- Past the buffer, while nothing waits in it. -/
theorem writeDirect (h : Appending c) (hp : c.pending = []) (src : Bytes) :
    ∃ k c', c.writeDirect src = (k, c') ∧ (c'.isBroken = false → k = src.length) ∧
      Lengthens c c' (src.take k) := by
  obtain ⟨k, c', hr, hs, hc', hx, hkept, hall⟩ := h.writeDirect_spec src
  refine ⟨k, c', hr, fun hb => (hall hb).2.1, hc', hx, hkept, fun hb => ?_⟩
  obtain ⟨hb₀, hk, hst⟩ := hall hb
  refine ⟨hb₀, ?_⟩
  rw [laid, laid, hs.pending, hp, encoded_nil, encoded_nil, List.append_nil, List.append_nil, hst,
    hk, List.take_length]

/-- Whatever drops what waited after it was sent. What could not be sent is lost. -/
theorem writePending (h : Appending c) :
    ∃ ok c₁, c.writePending = (ok, c₁) ∧ SameRegions c c₁ ∧
      ∀ c', Coherent c' → c'.mode = c₁.mode → c'.device = c₁.device → c'.expander = c₁.expander →
        c'.pending = [] → Lengthens c c' [] ∧ (c'.isBroken = false → ok = true) := by
  obtain ⟨k, c₁, hr, hs, hc₁, hx, hkept, hall⟩ := h.writeDirect_spec c.pending
  refine ⟨k == c.put.consumed, c₁, ?_, hs, ?_⟩
  · rw [Buffered.writePending, if_pos h.isOpen, hr]
  intro c' hc' hmode hd hx' hp
  have hopen : c'.isOpen = true := by
    rw [Buffered.isOpen, hd]
    exact hc₁.isOpen
  have hst : c'.stored = c₁.stored := by rw [stored, stored, hd]
  have hbr : c'.isBroken = c₁.isBroken := by rw [isBroken, isBroken, hd]
  refine ⟨⟨⟨hc', hopen, by rw [hmode, hc₁.append]⟩, by rw [hx', hx], hst ▸ hkept, fun hb => ?_⟩,
    fun hb => ?_⟩
  · obtain ⟨hb₀, _, hout⟩ := hall (hbr ▸ hb)
    refine ⟨hb₀, ?_⟩
    rw [laid, laid, hst, hp, encoded_nil, encoded_nil, List.append_nil, List.append_nil, hout]
  · obtain ⟨_, hk, _⟩ := hall (hbr ▸ hb)
    rw [hk, length_pending h.coherent]
    exact beq_self_eq_true _

end Appending

/-! ## Reading -/

/-- A step that may read the device or seek in it. -/
structure Visits (c c' : Buffered (Watched σ)) : Prop where
  mode : c'.mode = c.mode
  expander : c'.expander = c.expander
  device : ∀ d, c.device = some d → ∃ d', c'.device = some d' ∧ Idle d d'

theorem Visits.lengthens (hr : Visits c c') (h : Appending c) (hc : Coherent c')
    (hp : c'.pending = c.pending) : Lengthens c c' [] := by
  obtain ⟨d, hd⟩ := h.device
  obtain ⟨d', hd', hidle⟩ := hr.device d hd
  have hopen : c'.isOpen = true := by
    rw [isOpen, hd']
    rfl
  exact Appending.lengthens_of_idle ⟨hc, hopen, by rw [hr.mode, h.append]⟩ hd hd' hidle
    (by rw [hr.expander]) (by rw [hp, List.append_nil])

theorem visits_refl (c : Buffered (Watched σ)) : Visits c c :=
  ⟨rfl, rfl, fun d hd => ⟨d, hd, .refl d⟩⟩

theorem idle_receive (d : Watched σ) (text : Bool) (n : Nat) : Idle d (receive d text n).2 := by
  unfold receive
  cases text with
  | false => exact along_idle.readFully d n
  | true => exact along_idle.readCollapsed d n

theorem visits_readDirect (c : Buffered (Watched σ)) (n : Nat) : Visits c (c.readDirect n).2 := by
  unfold readDirect
  cases hd : c.device with
  | none => exact visits_refl c
  | some d =>
    refine ⟨rfl, rfl, fun d₀ hd₀ => ⟨_, rfl, ?_⟩⟩
    cases hd.symm.trans hd₀
    exact idle_receive d c.text n

theorem visits_refill (c : Buffered (Watched σ)) : Visits c c.refill := by
  unfold refill
  cases hd : c.device with
  | none => exact ⟨rfl, rfl, fun d₀ hd₀ => by rw [hd] at hd₀; cases hd₀⟩
  | some d =>
    refine ⟨rfl, rfl, fun d₀ hd₀ => ⟨_, rfl, ?_⟩⟩
    cases hd.symm.trans hd₀
    exact idle_receive d c.text c.buffer.length

theorem visits_takeCell (c : Buffered (Watched σ)) : Visits c c.takeCell.2 := by
  unfold takeCell
  split
  · exact ⟨rfl, rfl, (visits_refl c).device⟩
  · exact visits_refl c

theorem visits_takeFresh (c : Buffered (Watched σ)) (n : Nat) : Visits c (c.takeFresh n).2 := by
  unfold takeFresh
  by_cases hn : n = 0
  · rw [if_pos hn]
    exact visits_refl c
  rw [if_neg hn]
  split
  · have hr := visits_refill c
    exact ⟨hr.mode, hr.expander, hr.device⟩
  · have hr := visits_readDirect c n
    exact ⟨hr.mode, hr.expander, hr.device⟩

theorem visits_discardInput (c : Buffered (Watched σ)) : Visits c c.discardInput := by
  unfold discardInput
  cases hd : c.device with
  | none => exact ⟨rfl, rfl, fun d₀ hd₀ => by rw [hd] at hd₀; cases hd₀⟩
  | some d =>
    by_cases hu : 0 < c.unreadCount
    · refine ⟨by simp only [if_pos hu]; rfl, by simp only [if_pos hu]; rfl, fun d₀ hd₀ => ?_⟩
      cases hd.symm.trans hd₀
      simp only [if_pos hu]
      exact ⟨_, rfl, idle_seek d _⟩
    · simp only [if_neg hu]
      exact ⟨rfl, rfl, fun d₀ hd₀ => ⟨d₀, hd₀, .refl d₀⟩⟩

namespace Appending

theorem yieldInput (h : Appending c) : Lengthens c c.yieldInput [] := by
  obtain ⟨hc, hp⟩ := h.coherent.yieldInput
  have hr : Visits c c.yieldInput := by
    unfold Buffered.yieldInput
    split
    · exact visits_discardInput c
    · exact visits_refl c
  refine hr.lengthens h hc.coherent ?_
  rw [pending, pending, hp, hc.buffer]

/-- A sync leaves nothing waiting, so that nothing is sent twice. -/
theorem sync (h : Appending c) :
    ∃ ok c', c.sync = (ok, c') ∧ c'.pending = [] ∧ Lengthens c c' [] ∧
      (c'.isBroken = false → ok = true) := by
  rw [sync_eq]
  by_cases hp : 0 < c.put.consumed
  · obtain ⟨ok, c₁, hr, hs, hdrop⟩ := h.writePending
    have hc : Coherent c₁.reset := coherent_reset (h.coherent.congr hs).closed
    obtain ⟨hl, hok⟩ := hdrop c₁.reset hc rfl rfl rfl (pending_reset c₁)
    rw [if_pos hp, hr]
    exact ⟨ok, _, rfl, pending_reset c₁, hl, hok⟩
  · obtain ⟨hc, hput⟩ := h.coherent.yieldInput
    have hz : c.yieldInput.pending = [] := by
      rw [← List.length_eq_zero_iff, length_pending hc.coherent, hput]
      omega
    rw [if_neg hp]
    exact ⟨true, _, rfl, hz, h.yieldInput, fun _ => rfl⟩

theorem turnToInput (h : Appending c) (hr : c.mode.isReadable = true) :
    Lengthens c c.turnToInput [] := by
  have hin := h.coherent.turnToInput h.isOpen hr
  have hnone := pending_of_put_empty hin.put
  unfold Buffered.turnToInput at hin hnone ⊢
  by_cases hp : 0 < c.put.consumed
  · obtain ⟨ok, c₁, hw, _, hdrop⟩ := h.writePending
    rw [if_pos hp, hw] at hin hnone ⊢
    exact (hdrop _ hin.coherent rfl rfl rfl hnone).1
  · have hz : c.pending = [] := by
      rw [← List.length_eq_zero_iff, length_pending h.coherent]
      omega
    rw [if_neg hp] at hin hnone ⊢
    exact h.lengthens_of_same ⟨hin.coherent, h.isOpen, h.append⟩ rfl rfl (by rw [hnone, hz]; rfl)

/-- Between two states in which the channel is being read nothing waits. -/
theorem lengthens_inward (h : Appending c) (hin : Inward c) (hin' : Inward c') (hr : Visits c c') :
    Lengthens c c' [] :=
  hr.lengthens h hin'.coherent
    ((pending_of_put_empty hin'.put).trans (pending_of_put_empty hin.put).symm)

theorem read (h : Appending c) (n : Nat) : Lengthens c (c.read n).2 [] := by
  unfold Buffered.read
  by_cases hn : n = 0 ∨ c.canRead = false
  · rw [if_pos hn]
    exact h.refl
  rw [if_neg hn]
  obtain ⟨_, hr⟩ := not_or.1 hn
  simp only [canRead, Bool.not_eq_false, Bool.and_eq_true] at hr
  have hpb := h.pushedBack false
  have hturn := hpb.appending.turnToInput hr.2
  have hin := (h.coherent.pushedBack false).turnToInput hr.1 hr.2
  obtain ⟨hcell, hoff⟩ := hin.takeCell
  have htake := hturn.appending.lengthens_inward hin hcell (visits_takeCell _)
  have hahead (k : Nat) := htake.appending.lengthens_inward hcell (hcell.bump k)
    ⟨rfl, rfl, (visits_refl _).device⟩
  have hfresh (k m : Nat) := (hahead k).appending.lengthens_inward (hcell.bump k)
    ((hcell.bump k).takeFresh hoff m) (visits_takeFresh _ m)
  exact (hpb.trans_nil hturn).trans_nil (htake.trans_nil ((hahead _).trans_nil (hfresh _ _)))

theorem peek (h : Appending c) : Lengthens c c.peek.2 [] := by
  have hc := h.coherent.peek
  unfold Buffered.peek at hc ⊢
  by_cases hr : c.canRead = false
  · rw [if_pos hr]
    exact h.refl
  rw [if_neg hr] at hc ⊢
  simp only [canRead, Bool.not_eq_false, Bool.and_eq_true] at hr
  by_cases ha : 0 < c.get.available
  · rw [if_pos ha]
    exact h.refl
  rw [if_neg ha] at hc ⊢
  by_cases hparked : c.onCell = true ∧ 0 < c.filled
  · rw [if_pos hparked] at hc ⊢
    exact h.lengthens_of_same ⟨hc, h.isOpen, h.append⟩ rfl rfl (List.append_nil _).symm
  rw [if_neg hparked] at hc ⊢
  by_cases hb : c.buffer = []
  · rw [if_pos hb] at hc ⊢
    have hd := visits_readDirect { c with filled := 0 } 1
    have hp := (sameRegions_readDirect { c with filled := 0 } 1).pending
    exact Visits.lengthens ⟨hd.mode, hd.expander, hd.device⟩ h hc hp
  rw [if_neg hb] at hc ⊢
  have hin := h.coherent.turnToInput hr.1 hr.2
  have hfill := visits_refill { c.turnToInput with onCell := false }
  have hin' := inward_refill (c := { c.turnToInput with onCell := false }) hin.isOpen hin.readable
    hin.put rfl 0
  have hturn := h.turnToInput hr.2
  exact hturn.trans_nil (hturn.appending.lengthens_inward hin hin'
    ⟨hfill.mode, hfill.expander, hfill.device⟩)

theorem readByte (h : Appending c) : Lengthens c c.readByte.2 [] := by
  have hp := h.peek
  unfold Buffered.readByte
  rcases hr : c.peek with ⟨_ | b, c'⟩
  · rw [hr] at hp
    exact hp
  · rw [hr] at hp
    exact hp.trans_nil (hp.appending.advance 1)

theorem peekChunk (h : Appending c) : Lengthens c c.peekChunk.2 [] := by
  have hp := h.peek
  unfold Buffered.peekChunk
  by_cases ha : c.get.available = 0
  · rw [if_pos ha]
    rcases hr : c.peek with ⟨_ | b, c'⟩
    · rw [hr] at hp
      cases he : c'.error with
      | none =>
        simp only [he]
        exact hp
      | some e =>
        simp only [he]
        exact hp.trans_nil hp.appending.clearError
    · rw [hr] at hp
      exact hp
  · rw [if_neg ha]
    exact h.refl

theorem fill (h : Appending c) (n : Nat) : Lengthens c (c.fill n).2 [] := by
  have hp := h.peekChunk
  unfold Buffered.fill
  rcases hr : c.peekChunk with ⟨e | bs, c'⟩
  · rw [hr] at hp
    exact hp
  · rw [hr] at hp
    exact hp.trans_nil (hp.appending.advance _)

/-- A byte is pushed back only where there is no room for output. -/
theorem unread (h : Appending c) (b : UInt8) : Lengthens c (c.unread b).2 [] := by
  have hc := h.coherent.unread b
  unfold Buffered.unread at hc ⊢
  by_cases hr : c.canRead = false ∨ c.pushedBack = true ∨ c.put.isCollapsed = false
  · rw [if_pos hr]
    exact h.refl
  rw [if_neg hr] at hc ⊢
  simp only [not_or, Bool.not_eq_false] at hr
  have hz := h.pending_of_collapsed hr.2.2
  cases hstep : c.get.stepBack? with
  | none =>
    by_cases hcell : c.onCell = true
    · simp only [if_pos hcell]
      exact h.refl
    · simp only [hstep, if_neg hcell] at hc ⊢
      exact h.lengthens_of_same ⟨hc, h.isOpen, h.append⟩ rfl rfl (List.append_nil _).symm
  | some get =>
    by_cases hcell : c.onCell = true
    · simp only [hstep, if_pos hcell] at hc ⊢
      exact h.lengthens_of_same ⟨hc, h.isOpen, h.append⟩ rfl rfl (List.append_nil _).symm
    · simp only [hstep, if_neg hcell] at hc ⊢
      have h' : Appending { c with
          get := get
          buffer := overwrite c.buffer get.next [b]
          pushedBack := true } := ⟨hc, h.isOpen, h.append⟩
      refine h.lengthens_of_same h' rfl rfl ?_
      rw [h'.pending_of_collapsed hr.2.2, hz]
      rfl

/-! ## Writing -/

theorem openPut (h : Appending c) (hu : c.unreadCount = 0) : Lengthens c c.openPut [] := by
  have hc := h.coherent.openPut h.isWritable hu
  have hp := pending_openPut h.coherent
  rw [openPut_spec] at hc hp ⊢
  exact h.lengthens_of_same ⟨hc, h.isOpen, h.append⟩ rfl rfl (by rw [hp, List.append_nil])

theorem place (h : Appending c) (hb : bs.length ≤ c.put.available) :
    Lengthens c (c.place bs) bs :=
  h.lengthens_of_same ⟨h.coherent.place hb, h.isOpen, h.append⟩ rfl rfl
    (pending_place h.coherent hb)

theorem overflow (h : Appending c) (b : UInt8) :
    ∃ ok c', c.overflow b = (ok, c') ∧ Lengthens c c' (if ok then [b] else []) := by
  unfold Buffered.overflow
  rw [if_neg (by simp [h.canWrite])]
  by_cases hb : c.buffer = []
  · have hy := h.yieldInput
    have hbuf : c.yieldInput.buffer = [] := h.coherent.yieldInput.1.buffer.trans hb
    have hz := hy.appending.pending_of_collapsed
      (hy.appending.coherent.isCollapsed_of_nil hbuf)
    obtain ⟨k, c', hr, hk, hl⟩ := hy.appending.writeDirect hz [b]
    rw [if_pos hb]
    change ∃ ok c', ((c.yieldInput.writeDirect [b]).1 == 1,
      (c.yieldInput.writeDirect [b]).2) = (ok, c') ∧ _
    rw [hr]
    refine ⟨k == 1, c', rfl, hy.trans_nil ?_⟩
    by_cases hone : k = 1
    · rw [hone] at hl ⊢
      exact hl
    · -- a byte that was not taken is one that the device failed to take
      refine ⟨hl.appending, hl.expander, hl.kept, fun hok => absurd (hk hok) hone⟩
  · obtain ⟨ok, c₁, hr, _, hl, _⟩ := h.sync
    obtain ⟨hs, hz⟩ := h.coherent.sync
    rw [hr] at hs hz
    have hopen := hl.trans_nil (hl.appending.openPut hs.unreadCount)
    rw [if_neg hb, h.coherent.sync_openPut, hr]
    cases ok with
    | false => exact ⟨false, c₁.openPut, rfl, hopen⟩
    | true =>
      have hroom : [b].length ≤ c₁.openPut.put.available := by
        rw [hs.coherent.put_openPut hz, wholeBuffer, Region.available_clamped, hs.buffer]
        exact List.length_pos_iff.2 hb
      exact ⟨true, c₁.openPut.place [b], rfl, hopen.trans_nil (hopen.appending.place hroom)⟩

theorem writeByte (h : Appending c) (b : UInt8) :
    ∃ ok c', c.writeByte b = (ok, c') ∧ Lengthens c c' (if ok then [b] else []) := by
  unfold Buffered.writeByte
  by_cases ha : 0 < c.put.available ∧ c.canWrite = true
  · have hone : [b].length ≤ c.put.available := ha.1
    have hl := h.place hone
    rw [if_pos ha]
    exact ⟨true, _, rfl, hl.nil_trans (hl.appending.pushedBack false)⟩
  · rw [if_neg ha]
    exact h.overflow b

theorem store (h : Appending c) (src : Bytes) :
    ∃ k c', c.store src = (k, c') ∧ Lengthens c c' (src.take k) := by
  fun_induction Buffered.store c src with
  | case1 c => exact ⟨0, c, rfl, h.refl⟩
  | case2 c b bs ha n more =>
    rename_i ih
    have hn : ((b :: bs).take n).length = n := List.length_take_of_le (Nat.min_le_right _ _)
    have hl := h.place (Nat.le_trans (Nat.le_of_eq hn) (Nat.min_le_left _ _))
    obtain ⟨k, c', hr, hl'⟩ := ih hl.appending
    rw [show more = _ from hr]
    refine ⟨n + k, c', rfl, ?_⟩
    rw [List.take_add]
    exact hl.trans hl'
  | case3 c b bs ha r hr more =>
    rename_i ih
    obtain ⟨ok, c₁, hr₁, hl⟩ := h.overflow b
    have hc₁ : r.2 = c₁ := congrArg Prod.snd hr₁
    have hok : ok = true := (congrArg Prod.fst hr₁).symm.trans hr
    subst hok
    obtain ⟨k, c', hr', hl'⟩ := ih (hc₁ ▸ hl.appending)
    rw [show more = _ from hr']
    exact ⟨k + 1, c', rfl, hl.trans (hc₁ ▸ hl')⟩
  | case4 c b bs ha r hr =>
    obtain ⟨ok, c₁, hr₁, hl⟩ := h.overflow b
    have hc₁ : r.2 = c₁ := congrArg Prod.snd hr₁
    have hok : ok = false := by simpa [r, hr₁] using hr
    subst hok
    exact ⟨0, r.2, rfl, hc₁ ▸ hl⟩

theorem write (h : Appending c) (src : Bytes) :
    ∃ k c', c.write src = (k, c') ∧ Lengthens c c' (src.take k) := by
  have hpb := h.pushedBack false
  unfold Buffered.write
  rw [if_neg (by simp [h.canWrite])]
  by_cases hl : c.buffer.length < src.length
  · obtain ⟨ok, c₁, hr, hp, hsync, _⟩ := hpb.appending.sync
    simp only [if_pos hl, hr]
    cases ok with
    | false => exact ⟨0, c₁, rfl, hpb.trans_nil hsync⟩
    | true =>
      obtain ⟨k, c', hr', _, hw⟩ := hsync.appending.writeDirect hp src
      exact ⟨k, c', hr', hpb.trans_nil (hsync.trans_nil hw)⟩
  · have hy := hpb.trans_nil hpb.appending.yieldInput
    have hu := (h.coherent.pushedBack false).yieldInput.1.unreadCount
    simp only [if_neg hl]
    change ∃ k c', Buffered.store (if ({ c with pushedBack := false }.yieldInput).buffer = []
      then { c with pushedBack := false }.yieldInput
      else { c with pushedBack := false }.yieldInput.openPut) src = (k, c') ∧ _
    by_cases hb : ({ c with pushedBack := false }.yieldInput).buffer = []
    · obtain ⟨k, c', hr, hs⟩ := hy.appending.store src
      rw [if_pos hb]
      exact ⟨k, c', hr, hy.trans_nil hs⟩
    · have hopen := hy.trans_nil (hy.appending.openPut hu)
      obtain ⟨k, c', hr, hs⟩ := hopen.appending.store src
      rw [if_neg hb]
      exact ⟨k, c', hr, hopen.trans_nil hs⟩

/-! ## Sessions -/

theorem flush (h : Appending c) :
    ∃ r c', c.flush = (r, c') ∧ c'.pending = [] ∧ Lengthens c c' [] ∧
      (c'.isBroken = false → r = .ok ()) := by
  obtain ⟨ok, c', hr, hp, hl, hok⟩ := h.sync
  unfold Buffered.flush
  rw [if_neg (by simp [h.isOpen]), hr]
  cases ok with
  | true => exact ⟨.ok (), c', rfl, hp, hl, fun _ => rfl⟩
  | false => exact ⟨_, _, rfl, hp, hl.trans_nil hl.appending.clearError, fun hb => by cases hok hb⟩

theorem seek (h : Appending c) (o : Origin) : Lengthens c (c.seek o).2 [] := by
  have hpb := h.pushedBack false
  obtain ⟨ok, c', hr, hp, hl, _⟩ := hpb.appending.sync
  have hall := hpb.trans_nil hl
  unfold Buffered.seek
  rw [if_neg (by simp [h.isOpen]), hr]
  cases ok with
  | false => exact hall.trans_nil hl.appending.clearError
  | true =>
    obtain ⟨d, hd⟩ := hl.appending.device
    have hc : Coherent { c' with device := some (Device.seek d o).2 } :=
      hl.appending.coherent.congr (by constructor <;> simp [Buffered.isOpen, hd])
    simp only [hd, if_true]
    exact hall.trans_nil (lengthens_of_idle ⟨hc, rfl, hl.appending.append⟩ hd rfl (idle_seek d o)
      rfl (List.append_nil _).symm)

theorem installBuffer (h : Appending c) (buffer : Bytes) :
    Lengthens c (c.installBuffer buffer).2 [] := by
  unfold Buffered.installBuffer
  by_cases hu : c.unreadCount ≠ 0
  · rw [if_pos hu]
    exact h.refl
  obtain ⟨ok, c', hr, hp, hl, _⟩ := h.sync
  rw [if_neg hu, if_pos h.isOpen, hr]
  cases ok with
  | false => exact hl.trans_nil hl.appending.clearError
  | true =>
    let fresh : Buffered (Watched σ) := { c' with buffer := buffer, adopted := true }
    have hc : Coherent fresh.reset := coherent_reset hl.appending.coherent.closed
    have ha : Appending fresh.reset := ⟨hc, hl.appending.isOpen, hl.appending.append⟩
    have hpending : fresh.reset.pending = c'.pending ++ [] := by
      rw [hp]
      exact pending_reset fresh
    exact hl.trans_nil (hl.appending.lengthens_of_same ha rfl rfl hpending)

/-- Closing gives the device back with what a flush leaves on it. -/
theorem close (h : Appending c) :
    ∃ d d', c.flush.2.device = some d ∧ c.close.2.2 = some d' ∧ Idle d d' := by
  obtain ⟨r, c', hr, _, hl, _⟩ := h.flush
  obtain ⟨d, hd⟩ := hl.appending.device
  refine ⟨d, (Device.close d).2, by rw [hr, hd], ?_, idle_close d⟩
  unfold Buffered.close
  rw [if_neg (by simp [h.isOpen]), hr]
  simp only [hd]

/-- Opening leaves the device as it is, but for its position. -/
theorem of_attach {d : Watched σ} {mode : OpenMode} {c : Buffered (Watched σ)}
    (h : c.attach d mode = .ok c') (ha : mode.append = true) :
    Appending c' ∧ c'.stored = d.bytes ∧ c'.pending = [] ∧
      c'.expander.isSome = (!mode.binary && c.settings.textPolicy.translates) ∧
      (c'.isBroken = false → d.failed = false) := by
  have hc := coherent_attach h
  have hidle := idle_seek d (.finish 0)
  have hstart : mode.startsAtEnd = true := by simp [OpenMode.startsAtEnd, ha]
  have hwrite : mode.isWritable = true := by simp [OpenMode.isWritable, ha]
  obtain ⟨-, _, d₁, hmoved, rfl⟩ := attach_inv h
  rw [if_pos hstart] at hmoved
  rw [hmoved] at hidle
  refine ⟨⟨hc, rfl, ha⟩, hidle.bytes, pending_reset _, ?_, hidle.notes⟩
  simp only [openedOver, reset, hwrite, Bool.and_true]
  cases !mode.binary && c.settings.textPolicy.translates <;> rfl

end Appending

end ByteChannel.Buffered
