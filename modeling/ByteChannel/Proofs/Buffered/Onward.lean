import ByteChannel.Proofs.Buffered.CoherentCalls
import ByteChannel.Proofs.Device.Used

/-!
# What a channel keeps while it is open

Between its opening and its closing a channel keeps its device, which it reads, writes and moves,
its mode and the size of its buffer. Only another buffer that the caller puts in changes the size.
In every state an expander is there just where text may be written.
-/

namespace ByteChannel.Buffered

variable {σ : Type}

/-- What the opening has settled. -/
structure Setup where
  settings : Settings
  mode : OpenMode
  text : Bool
  adopted : Bool
  bufferSize : Nat
  expands : Bool

def setup (c : Buffered σ) : Setup where
  settings := c.settings
  mode := c.mode
  text := c.text
  adopted := c.adopted
  bufferSize := c.bufferSize
  expands := c.expander.isSome

variable [Device σ]

/-- A channel later in the same session. -/
structure Onward (c c' : Buffered σ) : Prop where
  setup : c'.setup = c.setup
  device : Option.Rel Device.Used c.device c'.device

variable {c c' c'' : Buffered σ}

theorem rel_used_refl (o : Option σ) : Option.Rel Device.Used o o := by
  cases o with
  | none => exact .none
  | some d => exact .some (.refl d)

theorem rel_used_trans {o o' o'' : Option σ} (h : Option.Rel Device.Used o o')
    (h' : Option.Rel Device.Used o' o'') : Option.Rel Device.Used o o'' := by
  cases h with
  | none => exact h'
  | some hu =>
    cases h' with
    | some hu' => exact .some (hu.trans hu')

theorem isSome_of_rel {o o' : Option σ} (h : Option.Rel Device.Used o o') :
    o'.isSome = o.isSome := by
  cases h with
  | none => rfl
  | some _ => rfl

namespace Onward

theorem same (hs : c'.setup = c.setup) (hd : c'.device = c.device) : Onward c c' :=
  ⟨hs, hd ▸ rel_used_refl _⟩

theorem refl (c : Buffered σ) : Onward c c := .same rfl rfl

theorem trans (h : Onward c c') (h' : Onward c' c'') : Onward c c'' :=
  ⟨h'.setup.trans h.setup, rel_used_trans h.device h'.device⟩

theorem used {d d' : σ} (hd : c.device = some d) (hu : Device.Used d d')
    (hs : c'.setup = c.setup) (hd' : c'.device = some d') : Onward c c' := by
  refine ⟨hs, ?_⟩
  rw [hd, hd']
  exact .some hu

theorem isOpen (h : Onward c c') : c'.isOpen = c.isOpen := isSome_of_rel h.device

end Onward

/-! ## Moving bytes -/

theorem used_receive (d : σ) (text : Bool) (n : Nat) : Device.Used d (receive d text n).2 := by
  unfold receive
  cases text with
  | false => exact Device.along_used.readFully d n
  | true => exact Device.along_used.readCollapsed d n

theorem used_send (d : σ) (t : Option Text.Expander) (append : Bool) (src : Bytes) :
    Device.Used d (send d t append src).2.2 ∧
      (send d t append src).2.1.isSome = t.isSome := by
  have hmoved : Device.Used d (if append then Device.seek d (.finish 0) else (.ok 0, d)).2 := by
    cases append with
    | false => exact .refl d
    | true => exact Device.used_seek d _
  unfold send
  rcases hr : (if append then Device.seek d (.finish 0) else (.ok 0, d)) with ⟨_ | _, d'⟩
  · rw [hr] at hmoved
    exact ⟨hmoved, rfl⟩
  · rw [hr] at hmoved
    cases t with
    | some t => exact ⟨hmoved.trans (Device.used_expanded d' t src), rfl⟩
    | none => exact ⟨hmoved.trans (Device.used_writeFully d' src), rfl⟩

theorem onward_readDirect (c : Buffered σ) (n : Nat) : Onward c (c.readDirect n).2 := by
  unfold readDirect
  cases hd : c.device with
  | none => exact .refl c
  | some d => exact .used hd (used_receive d c.text n) rfl rfl

theorem onward_refill (c : Buffered σ) : Onward c c.refill := by
  unfold refill
  cases hd : c.device with
  | none => exact .same rfl hd.symm
  | some d =>
    have hl := length_receive_le d c.text c.buffer.length
    refine .used hd (used_receive d c.text _) ?_ rfl
    simp only [Buffered.setup, Buffered.bufferSize, latch, length_overwrite, Nat.zero_add,
      Nat.max_eq_left hl]

theorem onward_writeDirect (c : Buffered σ) (src : Bytes) : Onward c (c.writeDirect src).2 := by
  unfold writeDirect
  cases hd : c.device with
  | none => exact .refl c
  | some d =>
    obtain ⟨hu, ht⟩ := used_send d c.expander c.mode.append src
    refine .used hd hu ?_ rfl
    simp only [Buffered.setup, Buffered.bufferSize, ht, latch]

theorem onward_writePending (c : Buffered σ) : Onward c c.writePending.2 := by
  unfold writePending
  by_cases ho : c.isOpen = true
  · rw [if_pos ho]
    exact onward_writeDirect c c.pending
  · rw [if_neg ho]
    exact .refl c

theorem onward_reset (c : Buffered σ) : Onward c c.reset := .same rfl rfl

theorem onward_discardInput (c : Buffered σ) : Onward c c.discardInput := by
  unfold discardInput
  cases hd : c.device with
  | none => exact .same rfl rfl
  | some d =>
    by_cases hu : 0 < c.unreadCount
    · simp only [if_pos hu]
      exact .used hd (Device.used_seek d _) rfl rfl
    · simp only [if_neg hu]
      exact .same rfl rfl

theorem onward_yieldInput (c : Buffered σ) : Onward c c.yieldInput := by
  unfold yieldInput
  by_cases hr : c.mode.isReadable = true
  · rw [if_pos hr]
    exact onward_discardInput c
  · rw [if_neg hr]
    exact .refl c

theorem onward_sync (c : Buffered σ) : Onward c c.sync.2 := by
  rw [sync_eq]
  by_cases hp : 0 < c.put.consumed
  · rw [if_pos hp]
    exact (onward_writePending c).trans (onward_reset _)
  · rw [if_neg hp]
    exact onward_yieldInput c

theorem onward_pushedBack (c : Buffered σ) (b : Bool) : Onward c { c with pushedBack := b } :=
  .same rfl rfl

/-! ## Input -/

theorem onward_turnToInput (c : Buffered σ) : Onward c c.turnToInput := by
  unfold turnToInput
  by_cases hp : 0 < c.put.consumed
  · rw [if_pos hp]
    exact (onward_writePending c).trans (.same rfl rfl)
  · rw [if_neg hp]
    exact .same rfl rfl

theorem onward_takeCell (c : Buffered σ) : Onward c c.takeCell.2 := by
  unfold takeCell
  by_cases hc : c.onCell = true
  · rw [if_pos hc]
    exact .same rfl rfl
  · rw [if_neg hc]
    exact .refl c

theorem onward_takeAhead (c : Buffered σ) (n : Nat) : Onward c (c.takeAhead n).2 := .same rfl rfl

theorem onward_takeFresh (c : Buffered σ) (n : Nat) : Onward c (c.takeFresh n).2 := by
  unfold takeFresh
  by_cases hn : n = 0
  · rw [if_pos hn]
    exact .refl c
  rw [if_neg hn]
  by_cases hl : n < c.buffer.length
  · rw [if_pos hl]
    exact (onward_refill c).trans (.same rfl rfl)
  · rw [if_neg hl]
    exact (onward_readDirect c n).trans (.same rfl rfl)

theorem onward_read (c : Buffered σ) (n : Nat) : Onward c (c.read n).2 := by
  unfold read
  by_cases hn : n = 0 ∨ c.canRead = false
  · rw [if_pos hn]
    exact .refl c
  · rw [if_neg hn]
    exact (onward_pushedBack c false).trans <| (onward_turnToInput _).trans <|
      (onward_takeCell _).trans <| (onward_takeAhead _ _).trans (onward_takeFresh _ _)

theorem onward_peek (c : Buffered σ) : Onward c c.peek.2 := by
  unfold peek
  by_cases hr : c.canRead = false
  · rw [if_pos hr]
    exact .refl c
  rw [if_neg hr]
  by_cases ha : 0 < c.get.available
  · rw [if_pos ha]
    exact .refl c
  rw [if_neg ha]
  by_cases hparked : c.onCell = true ∧ 0 < c.filled
  · rw [if_pos hparked]
    exact .same rfl rfl
  rw [if_neg hparked]
  by_cases hb : c.buffer = []
  · rw [if_pos hb]
    have hempty : Onward c { c with filled := 0 } := .same rfl rfl
    exact hempty.trans ((onward_readDirect _ 1).trans (.same rfl rfl))
  · rw [if_neg hb]
    have hturn : Onward c { c.turnToInput with onCell := false } :=
      (onward_turnToInput c).trans (.same rfl rfl)
    exact hturn.trans ((onward_refill _).trans (.same rfl rfl))

theorem onward_advance (c : Buffered σ) (n : Nat) : Onward c (c.advance n) := .same rfl rfl

theorem onward_readByte (c : Buffered σ) : Onward c c.readByte.2 := by
  have hp := onward_peek c
  unfold readByte
  rcases hr : c.peek with ⟨_ | b, c'⟩
  · rw [hr] at hp
    exact hp
  · rw [hr] at hp
    exact hp.trans (onward_advance c' 1)

theorem onward_takeError (c : Buffered σ) : Onward c { c with error := none } := .same rfl rfl

theorem onward_peekChunk (c : Buffered σ) : Onward c c.peekChunk.2 := by
  have hp := onward_peek c
  unfold peekChunk
  by_cases ha : c.get.available = 0
  · rw [if_pos ha]
    rcases hr : c.peek with ⟨_ | b, c'⟩
    · rw [hr] at hp
      cases he : c'.error with
      | none =>
        simp only [he]
        exact hp
      | some e =>
        simp only [he]
        exact hp.trans (onward_takeError c')
    · rw [hr] at hp
      exact hp
  · rw [if_neg ha]
    exact .refl c

theorem onward_fill (c : Buffered σ) (n : Nat) : Onward c (c.fill n).2 := by
  have hp := onward_peekChunk c
  unfold fill
  rcases hr : c.peekChunk with ⟨e | bs, c'⟩
  · rw [hr] at hp
    exact hp
  · rw [hr] at hp
    exact hp.trans (onward_advance c' _)

theorem Coherent.onward_unread (h : Coherent c) (b : UInt8) : Onward c (c.unread b).2 := by
  unfold Buffered.unread
  by_cases hr : c.canRead = false ∨ c.pushedBack = true ∨ c.put.isCollapsed = false
  · rw [if_pos hr]
    exact .refl c
  rw [if_neg hr]
  cases hstep : c.get.stepBack? with
  | none =>
    by_cases hcell : c.onCell = true
    · simp only [if_pos hcell]
      exact .refl c
    · simp only [if_neg hcell]
      exact .same rfl rfl
  | some get =>
    obtain ⟨_, _, hnext⟩ := Region.stepBack?_spec hstep
    by_cases hcell : c.onCell = true
    · simp only [if_pos hcell]
      exact .same rfl rfl
    · simp only [if_neg hcell]
      have hg := h.get_limit (by simpa using hcell)
      have hlt := c.get.next_le_limit
      have hf := h.filled_le
      have hlen : (overwrite c.buffer get.next [b]).length = c.buffer.length := by
        rw [length_overwrite, List.length_singleton]
        omega
      refine .same ?_ rfl
      simp only [Buffered.setup, Buffered.bufferSize, hlen]

/-! ## Output -/

theorem Coherent.onward_place (h : Coherent c) {bs : Bytes} (hb : bs.length ≤ c.put.available) :
    Onward c (c.place bs) := by
  have hl := length_place h hb
  refine .same ?_ rfl
  simp only [Buffered.setup, Buffered.bufferSize, hl]
  rfl

theorem onward_openPut (c : Buffered σ) : Onward c c.openPut := by
  rw [openPut_spec]
  exact .same rfl rfl

theorem Coherent.onward_overflow (h : Coherent c) (b : UInt8) : Onward c (c.overflow b).2 := by
  unfold Buffered.overflow
  by_cases hw : c.canWrite = false
  · rw [if_pos hw]
    exact .refl c
  rw [if_neg hw]
  simp only [canWrite, Bool.not_eq_false, Bool.and_eq_true] at hw
  by_cases hb : c.buffer = []
  · rw [if_pos hb]
    exact (onward_yieldInput c).trans (onward_writeDirect _ _)
  rw [if_neg hb, h.sync_openPut]
  obtain ⟨hs, hp⟩ := h.sync
  have hopen : Coherent c.sync.2.openPut :=
    hs.coherent.openPut (by rw [hs.mode]; exact hw.2) hs.unreadCount
  have honward : Onward c c.sync.2.openPut := (onward_sync c).trans (onward_openPut _)
  by_cases hr : c.sync.1 = true
  · simp only [if_pos hr]
    refine honward.trans (hopen.onward_place ?_)
    rw [hs.coherent.put_openPut hp, wholeBuffer, Region.available_clamped, hs.buffer]
    exact List.length_pos_iff.2 hb
  · simp only [if_neg hr]
    exact honward

theorem Coherent.onward_writeByte (h : Coherent c) (b : UInt8) : Onward c (c.writeByte b).2 := by
  unfold Buffered.writeByte
  by_cases hw : 0 < c.put.available ∧ c.canWrite = true
  · rw [if_pos hw]
    have hb : [b].length ≤ c.put.available := hw.1
    exact (h.onward_place hb).trans (onward_pushedBack _ false)
  · rw [if_neg hw]
    exact h.onward_overflow b

theorem Coherent.onward_store (h : Coherent c) (src : Bytes) : Onward c (c.store src).2 := by
  fun_induction Buffered.store c src with
  | case1 => exact .refl _
  | case2 c b bs ha k more ih =>
    have hroom : ((b :: bs).take k).length ≤ c.put.available := by
      rw [List.length_take]
      exact Nat.le_trans (Nat.min_le_left _ _) (Nat.min_le_left _ _)
    exact (h.onward_place hroom).trans (ih (h.place hroom))
  | case3 c b bs ha r hr more ih => exact (h.onward_overflow b).trans (ih (h.overflow b))
  | case4 c b bs ha r hr => exact h.onward_overflow b

theorem Coherent.onward_write (h : Coherent c) (src : Bytes) : Onward c (c.write src).2 := by
  unfold Buffered.write
  by_cases hw : c.canWrite = false
  · rw [if_pos hw]
    exact .refl c
  rw [if_neg hw]
  simp only [canWrite, Bool.not_eq_false, Bool.and_eq_true] at hw
  have hp := h.pushedBack false
  have hstart := onward_pushedBack c false
  by_cases hl : c.buffer.length < src.length
  · simp only [if_pos hl]
    have hsync := onward_sync { c with pushedBack := false }
    rcases hd : Buffered.sync { c with pushedBack := false } with ⟨_ | _, c'⟩
    · rw [hd] at hsync
      exact hstart.trans hsync
    · rw [hd] at hsync
      exact hstart.trans (hsync.trans (onward_writeDirect c' src))
  simp only [if_neg hl]
  obtain ⟨hc, _⟩ := hp.yieldInput
  change Onward c (Buffered.store (if ({ c with pushedBack := false }.yieldInput).buffer = []
    then { c with pushedBack := false }.yieldInput
    else { c with pushedBack := false }.yieldInput.openPut) src).2
  have hyield := hstart.trans (onward_yieldInput { c with pushedBack := false })
  by_cases hb : ({ c with pushedBack := false }.yieldInput).buffer = []
  · rw [if_pos hb]
    exact hyield.trans (hc.coherent.onward_store src)
  · rw [if_neg hb]
    have hopen := hc.coherent.openPut (by rw [hc.mode]; exact hw.2) hc.unreadCount
    exact hyield.trans ((onward_openPut _).trans (hopen.onward_store src))

/-! ## Sessions -/

theorem onward_flush (c : Buffered σ) : Onward c c.flush.2 := by
  have hs := onward_sync c
  unfold flush
  by_cases ho : c.isOpen = false
  · rw [if_pos ho]
    exact .refl c
  rw [if_neg ho]
  rcases hd : c.sync with ⟨_ | _, c'⟩
  · rw [hd] at hs
    exact hs.trans (onward_takeError c')
  · rw [hd] at hs
    exact hs

theorem onward_seek (c : Buffered σ) (o : Origin) : Onward c (c.seek o).2 := by
  have hs := (onward_pushedBack c false).trans (onward_sync _)
  unfold seek
  by_cases ho : c.isOpen = false
  · rw [if_pos ho]
    exact .refl c
  rw [if_neg ho]
  rcases hd : Buffered.sync { c with pushedBack := false } with ⟨_ | _, c'⟩
  · rw [hd] at hs
    exact hs.trans (onward_takeError c')
  · rw [hd] at hs
    cases hdev : c'.device with
    | none =>
      simp only [hdev]
      exact hs
    | some d =>
      simp only [hdev]
      exact hs.trans (.used hdev (Device.used_seek d o) rfl rfl)

/-- A new buffer leaves everything else in place, and is only taken where output was not lost. -/
theorem installBuffer_spec (c : Buffered σ) (buffer : Bytes) :
    (∃ e c', c.installBuffer buffer = (.error e, c') ∧ Onward c c') ∨
      ∃ c', c.installBuffer buffer = (.ok (), { c' with buffer := buffer, adopted := true }.reset) ∧
        Onward c c' := by
  have hs : Onward c (if c.isOpen then c.sync else (true, c)).2 := by
    by_cases ho : c.isOpen = true
    · rw [if_pos ho]
      exact onward_sync c
    · rw [if_neg ho]
      exact .refl c
  unfold installBuffer
  by_cases hu : c.unreadCount ≠ 0
  · rw [if_pos hu]
    exact .inl ⟨_, c, rfl, .refl c⟩
  rw [if_neg hu]
  rcases hd : (if c.isOpen then c.sync else (true, c)) with ⟨_ | _, c'⟩
  · rw [hd] at hs
    exact .inl ⟨_, _, rfl, hs.trans (onward_takeError c')⟩
  · rw [hd] at hs
    exact .inr ⟨c', rfl, hs⟩

/-- An opening is refused, or it takes the device up and leaves the rest of the setup to itself. -/
theorem attach_spec {d : σ} {mode : OpenMode} (h : c.attach d mode = .ok c') :
    c.device = none ∧ (∃ d', c'.device = some d' ∧ Device.Used d d') ∧ c'.settings = c.settings ∧
      c'.adopted = c.adopted ∧ (c.adopted = true → c'.bufferSize = c.bufferSize) := by
  obtain ⟨hclosed, pos, d', hd, rfl⟩ := attach_inv h
  have hmoved :
      Device.Used d (if mode.startsAtEnd then Device.seek d (.finish 0) else (.ok 0, d)).2 := by
    by_cases hm : mode.startsAtEnd = true
    · rw [if_pos hm]
      exact Device.used_seek d _
    · rw [if_neg hm]
      exact .refl d
  rw [hd] at hmoved
  refine ⟨by simpa [isOpen] using hclosed, ⟨d', rfl, hmoved⟩, rfl, rfl, fun ha => ?_⟩
  exact congrArg List.length (if_pos ha)

/-- Closing hands back the device after a last flush, closed. -/
theorem close_spec (c : Buffered σ) :
    (c.device = none ∧ c.close = (.error .notOpen, c, none)) ∨
      ∃ d d' r c', c.device = some d ∧ Device.Used d d' ∧
        c.close = (r, c', some (Device.close d').2) ∧ c'.device = none ∧
        c'.settings = c.settings ∧ c'.adopted = c.adopted ∧
        c'.bufferSize = c.bufferSize := by
  have hf := onward_flush c
  cases hd : c.device with
  | none =>
    refine .inl ⟨rfl, if_pos ?_⟩
    rw [isOpen, hd]
    rfl
  | some d =>
    have ho : ¬ c.isOpen = false := by simp [isOpen, hd]
    have hdev := hf.device
    rw [hd] at hdev
    cases hfd : c.flush.2.device with
    | none =>
      rw [hfd] at hdev
      cases hdev
    | some d' =>
      rw [hfd] at hdev
      cases hdev with
      | some hu =>
        unfold close
        rw [if_neg ho]
        simp only [hfd]
        exact .inr ⟨d, d', _, _, rfl, hu, rfl, rfl, congrArg Setup.settings hf.setup,
          congrArg Setup.adopted hf.setup, congrArg Setup.bufferSize hf.setup⟩

/-! ## Calls -/

/-- The size of the buffer that the caller means to put in. -/
def putsIn : Call → Option Nat
  | .install buffer => some buffer.length
  | .resize n => some n
  | _ => none

theorem Coherent.onward_perform (h : Coherent c) {call : Call} (hp : putsIn call = none) :
    Onward c (c.perform call).2 := by
  cases call with
  | read n => exact onward_read c n
  | readByte => exact onward_readByte c
  | peek => exact onward_peek c
  | fill n => exact onward_fill c n
  | unread b => exact h.onward_unread b
  | write src => exact h.onward_write src
  | writeByte b => exact h.onward_writeByte b
  | overflow b => exact h.onward_overflow b
  | flush => exact onward_flush c
  | seek o => exact onward_seek c o
  | tell => exact onward_seek c _
  | install buffer => cases hp
  | resize n => cases hp

/-- A call that puts in a buffer does so or is refused; any other one puts none in. -/
theorem Coherent.perform_spec (h : Coherent c) (call : Call) :
    (Onward c (c.perform call).2 ∧
        (putsIn call = none ∨ ∃ e, (c.perform call).1 = .outcome (.error e))) ∨
      ∃ buffer c₁, Onward c c₁ ∧ putsIn call = some buffer.length ∧
        c.perform call =
          (.outcome (.ok ()), { c₁ with buffer := buffer, adopted := true }.reset) := by
  have hinstall (buffer : Bytes) (hcall : putsIn call = some buffer.length)
      (heq : c.perform call = (c.installBuffer buffer).map .outcome id) :
      (Onward c (c.perform call).2 ∧
          (putsIn call = none ∨ ∃ e, (c.perform call).1 = .outcome (.error e))) ∨
        ∃ buffer c₁, Onward c c₁ ∧ putsIn call = some buffer.length ∧
          c.perform call =
            (.outcome (.ok ()), { c₁ with buffer := buffer, adopted := true }.reset) := by
    obtain ⟨e, c₁, hi, hc₁⟩ | ⟨c₁, hi, hc₁⟩ := installBuffer_spec c buffer
    · rw [heq, hi]
      exact .inl ⟨hc₁, .inr ⟨e, rfl⟩⟩
    · exact .inr ⟨buffer, c₁, hc₁, hcall, by rw [heq, hi]; rfl⟩
  cases hp : putsIn call with
  | none => exact .inl ⟨h.onward_perform hp, .inl rfl⟩
  | some k =>
    rw [hp] at hinstall
    cases call with
    | install buffer => exact hinstall buffer hp.symm rfl
    | resize n => exact hinstall (List.replicate n 0) (by rw [← hp, List.length_replicate]; rfl) rfl
    | _ => cases hp

/-! ## Text -/

/-- What is written to a text channel is expanded, and nothing else is. -/
def ExpandsText (c : Buffered σ) : Prop := c.expander.isSome = (c.text && c.mode.isWritable)

theorem ExpandsText.onward (h : ExpandsText c) (ho : Onward c c') : ExpandsText c' := by
  have htext : c'.text = c.text := congrArg Setup.text ho.setup
  have hmode : c'.mode = c.mode := congrArg Setup.mode ho.setup
  have hexpands : c'.expander.isSome = c.expander.isSome := congrArg Setup.expands ho.setup
  rw [ExpandsText, htext, hmode, hexpands]
  exact h

theorem expandsText_attach {d : σ} {mode : OpenMode} (h : c.attach d mode = .ok c') :
    ExpandsText c' := by
  obtain ⟨-, _, _, -, rfl⟩ := attach_inv h
  simp only [ExpandsText, openedOver, reset]
  cases (!mode.binary && c.settings.textPolicy.translates) && mode.isWritable <;> rfl

theorem ExpandsText.perform (h : ExpandsText c) (hc : Coherent c) (call : Call) :
    ExpandsText (c.perform call).2 := by
  obtain ⟨ho, -⟩ | ⟨buffer, c₁, ho, -, hr⟩ := hc.perform_spec call
  · exact h.onward ho
  · have h₁ : ExpandsText c₁ := h.onward ho
    rw [hr]
    exact h₁

theorem ExpandsText.close (h : ExpandsText c) : ExpandsText c.close.2.1 := by
  unfold Buffered.close
  by_cases ho : c.isOpen = false
  · rw [if_pos ho]
    exact h
  rw [if_neg ho]
  cases hd : c.flush.2.device with
  | none =>
    simp only [hd]
    exact (Bool.and_false _).symm
  | some d =>
    simp only [hd]
    exact (Bool.and_false _).symm

/-! ## The failing face -/

theorem onward_tryRead (c : Buffered σ) (n : Nat) : Onward c (c.tryRead n).2 := by
  have hr := onward_read c n
  unfold tryRead
  by_cases ho : c.isOpen = false
  · rw [if_pos ho]
    exact .refl c
  rw [if_neg ho]
  dsimp only
  by_cases he : (c.read n).1 = [] ∧ n ≠ 0
  · rw [if_pos he]
    cases (c.read n).2.error with
    | none => exact hr
    | some e => exact hr.trans (onward_takeError _)
  · rw [if_neg he]
    exact hr

theorem Coherent.onward_tryWrite (h : Coherent c) (src : Bytes) : Onward c (c.tryWrite src).2 := by
  have hw := h.onward_write src
  unfold Buffered.tryWrite
  by_cases ho : c.isOpen = false
  · rw [if_pos ho]
    exact .refl c
  rw [if_neg ho]
  dsimp only
  by_cases he : (c.write src).1 = 0 ∧ src ≠ []
  · rw [if_pos he]
    exact hw.trans (onward_takeError _)
  · rw [if_neg he]
    exact hw

theorem onward_readToEnd (c : Buffered σ) (limit : Nat) : Onward c (c.readToEnd limit).2 := by
  fun_induction Buffered.readToEnd c limit with
  | case1 => exact .refl _
  | case2 c limit r hr => exact onward_readByte c
  | case3 c limit r b hr along more ih =>
    exact (onward_readByte c).trans ((onward_advance _ _).trans ih)

theorem onward_readThrough (c : Buffered σ) (b : UInt8) (limit : Nat) :
    Onward c (c.readThrough b limit).2 := by
  fun_induction Buffered.readThrough c b limit with
  | case1 => exact .refl _
  | case2 c limit r e hr => exact onward_peekChunk c
  | case3 c limit r hr => exact (onward_peekChunk c).trans (onward_advance _ 0)
  | case4 c limit r chunk hr hne hmem found =>
    exact (onward_peekChunk c).trans (onward_advance _ _)
  | case5 c limit r chunk hr hne hmem more ih =>
    exact (onward_peekChunk c).trans ((onward_advance _ _).trans ih)

end ByteChannel.Buffered
