import ByteChannel.Proofs.Mapped.Holding
import ByteChannel.Proofs.Mapped.Reserved
import ByteChannel.Proofs.Mapped.Seeking

/-!
# Refused windows

An act that is refused its window has dropped the one before. It answers what it moved until then,
and leaves both cursors empty where its side stands. There they stay however often a window is
refused again, and from there the channel goes on once it is granted one.
-/

namespace ByteChannel

namespace Mapped

/-- From `c` to `d` a window on an opening was asked for and refused. -/
structure Refused (c d : Mapped) (o : Opening) (e : IoError) : Prop where
  asked : c.table.windowsAsked < d.table.windowsAsked
  refused : (c.table.askWindow o).1 = some e

/-- What an act comes to without its window: the answer, the position of its side and the failure
that it latches. -/
structure Halt where
  answer : Answer
  pos : Nat
  latched : Option ChannelError

/-- Only acts that move bytes or make room can be halted. -/
def halt? [Paging] (c : Mapped) (e : IoError) : Act → Option Halt
  | .op (.read _) => some ⟨.bytes c.getData, c.getPos + c.getData.length, some (.io e)⟩
  | .op .readByte | .peek => some ⟨.byte none, c.getPos, some (.io e)⟩
  | .op (.reserveGet _) => some ⟨.number (.error (.io e)), c.getPos, none⟩
  | .op (.reservePut _) => some ⟨.number (.error (.io e)), c.putPos, none⟩
  | .op (.write _) => some ⟨.count 0, c.putPos, some (.io e)⟩
  | .op (.writeByte _) => some ⟨.flag false, c.putPos, some (.io e)⟩
  | .op (.seek _ _) | .flush => none

/-- The channel without a window, with both cursors empty at a position. -/
structure Stalled [Paging] (c : Mapped) (pos : Nat) : Prop where
  unbound : c.view.window = none
  get_eq : c.get = .empty
  put_eq : c.put = .empty
  getData_eq : c.getData = []
  putData_eq : c.putData = []
  getPos_eq : c.getPos = pos
  putPos_eq : c.putPos = pos

/-- Where the channel is once a window at a position was refused. -/
def haltAt (c : Mapped) (o : Opening) (pos : Nat) : Mapped :=
  { c.dropWindow with offset := pos, table := (c.dropWindow.table.askWindow o).2 }

variable {c d : Mapped} {i : Nat} {o : Opening} {m : OpenMode} {e : IoError} {pos : Nat}

theorem not_refused_of_eq (h : d.table.windowsAsked = c.table.windowsAsked) :
    ¬Refused c d o e :=
  fun hr => Nat.lt_irrefl _ (h ▸ hr.asked)

theorem windowsAsked_dropWindow (c : Mapped) :
    c.dropWindow.table.windowsAsked = c.table.windowsAsked :=
  View.windowsAsked_sync c.view c.table

theorem windowsAsked_flush (c : Mapped) :
    c.flush.2.table.windowsAsked = c.table.windowsAsked := by
  unfold flush
  dsimp only
  split <;> exact View.windowsAsked_sync c.view c.table

variable [Paging]

theorem windowsAsked_store (c : Mapped) (bs : Bytes) :
    (c.store bs).table.windowsAsked = c.table.windowsAsked := by
  unfold store View.store?
  split
  · rfl
  · split
    · next hstore =>
      split at hstore
      · split at hstore
        · cases hstore
        · cases hstore
          unfold MapTable.setFile
          split <;> rfl
        · cases hstore
          rfl
      · cases hstore
    · rfl

theorem stalled_of_unbound (hview : c.view.window = none) (hget : c.get = .empty)
    (hput : c.put = .empty) (hoffset : c.offset = pos) : Stalled c pos := by
  have hrange (start stop : Nat) : c.view.range c.table start stop = [] := by
    rw [View.range, hview]
    cases c.view.opening? c.table <;> rfl
  refine ⟨hview, hget, hput, hrange _ _, hrange _ _, ?_, ?_⟩
  · rw [getPos, hget, hoffset]
    rfl
  · rw [putPos, hput, hoffset]
    rfl

theorem stalled_haltAt (c : Mapped) (o : Opening) (pos : Nat) : Stalled (c.haltAt o pos) pos :=
  stalled_of_unbound rfl rfl rfl rfl

theorem stalled_dropWindow (hoffset : c.offset = pos) : Stalled c.dropWindow pos :=
  stalled_of_unbound rfl rfl rfl hoffset

namespace Stalled

theorem offset_eq (h : Stalled c pos) : c.offset = pos := by
  have hpos := h.getPos_eq
  rwa [getPos, h.get_eq] at hpos

theorem length_eq (h : Stalled c pos) : c.view.length = 0 := View.length_unbound h.unbound

theorem forget (h : Stalled c pos) (e : Option ChannelError) : Stalled { c with error := e } pos :=
  stalled_of_unbound h.unbound h.get_eq h.put_eq h.offset_eq

theorem latch (h : Stalled c pos) (e : Option ChannelError) : Stalled (c.latch e) pos :=
  h.forget _

theorem on (h : Stalled c pos) (t : MapTable) : Stalled { c with table := t } pos :=
  stalled_of_unbound h.unbound h.get_eq h.put_eq h.offset_eq

theorem clamped_eq (h : Stalled c pos) (next : Nat) :
    Region.clamped 0 next c.view.length = .empty :=
  Region.eq_empty rfl (by rw [Region.limit_clamped, h.length_eq])

theorem setGet (h : Stalled c pos) (next : Nat) : c.setGet next = c := by
  rw [Mapped.setGet, h.clamped_eq, ← h.get_eq]

theorem setPut (h : Stalled c pos) (next : Nat) : c.setPut next = c := by
  rw [Mapped.setPut, h.clamped_eq, ← h.put_eq]

end Stalled

/-! ## Acts that are refused their window -/

/-- At the end of the mapping a slide asks for no window. -/
theorem Over.slide_at_end (h : c.Over i o) (hend : o.length ≤ c.offset) (n : Nat) :
    c.slide n = (.ok (), c.dropWindow) := by
  have hsize : c.dropWindow.size ≤ c.dropWindow.offset := h.dropWindow.size_eq ▸ hend
  exact if_pos hsize

theorem Over.slide_refused (h : c.Over i o) (hlt : c.offset < o.length) (n : Nat)
    (he : (c.table.askWindow o).1 = some e) :
    c.slide n = (.error (.io e), c.haltAt o c.offset) := by
  obtain ⟨held, hheld, rfl⟩ := h.dropWindow.exists_opening
  have hsize : ¬c.dropWindow.size ≤ c.dropWindow.offset :=
    h.dropWindow.size_eq ▸ Nat.not_le_of_lt hlt
  have hopen : c.dropWindow.mapping.opening? c.dropWindow.table = some held := by
    rw [Mapping.opening?, h.dropWindow.holds]
    exact hheld
  have hask : (c.dropWindow.table.askWindow held).1 = some e :=
    ((View.like_sync c.view c.table).askWindow (windowsAsked_dropWindow c) held).trans he
  have hinside : c.offset < held.length := hlt
  have hremap := c.dropWindow.view.remap_refused hopen hinside hask (max n pageSize)
  unfold Mapped.slide
  dsimp only
  rw [if_neg hsize, show c.dropWindow.offset = c.offset from rfl, hremap]
  rfl

namespace Framed

/-- A slide that is refused its window was not to the end of the mapping. -/
theorem halts_slide (h : c.Framed i o) (hle : pos ≤ o.length) {n : Nat}
    (hr : Refused c (Mapped.slide { c with offset := pos } n).2 o e) :
    Mapped.slide { c with offset := pos } n = (.error (.io e), c.haltAt o pos) := by
  have hover : Over { c with offset := pos } i o := ⟨h.holds, h.opened, hle⟩
  rcases Nat.lt_or_ge pos o.length with hlt | hend
  · exact hover.slide_refused hlt n hr.refused
  · rw [hover.slide_at_end hend] at hr
    exact absurd hr (not_refused_of_eq (windowsAsked_dropWindow _))

theorem halts_reserveGet (h : c.Framed i o) {n : Nat} (hr : Refused c (c.reserveGet n).2 o e) :
    c.reserveGet n = (.error (.io e), c.haltAt o c.getPos) := by
  have hpos : c.offset + c.get.consumed = c.getPos := by
    rw [h.consumed_get]
    rfl
  unfold Mapped.reserveGet at hr ⊢
  rw [if_neg (by simp [h.isOpen]), hpos] at hr ⊢
  by_cases hn : c.get.available < n
  · rw [if_pos hn] at hr ⊢
    rw [h.halts_slide h.getPos_le hr]
    rfl
  · rw [if_neg hn] at hr
    exact absurd hr (not_refused_of_eq rfl)

theorem halts_reservePut (h : c.Framed i o) {n : Nat} (hr : Refused c (c.reservePut n).2 o e) :
    c.reservePut n = (.error (.io e), c.haltAt o c.putPos) := by
  have hpos : c.offset + c.put.consumed = c.putPos := by
    rw [h.consumed_put]
    rfl
  unfold Mapped.reservePut at hr ⊢
  rw [if_neg (by simp [h.isOpen]), hpos] at hr ⊢
  by_cases hw : c.mode.isWritable = false
  · rw [if_pos hw] at hr
    exact absurd hr (not_refused_of_eq rfl)
  rw [if_neg hw] at hr ⊢
  by_cases hn : c.put.available < n
  · rw [if_pos hn] at hr ⊢
    rw [h.halts_slide h.putPos_le hr]
    rfl
  · rw [if_neg hn] at hr
    exact absurd hr (not_refused_of_eq rfl)

/-- What the window still had is handed out. -/
theorem halts_read (h : c.Framed i o) {n : Nat} (hr : Refused c (c.read n).2 o e) :
    c.read n = (c.getData, (c.haltAt o (c.getPos + c.getSize)).latch (some (.io e))) := by
  unfold Mapped.read at hr ⊢
  by_cases hcan : c.canRead = false
  · rw [if_pos hcan] at hr
    exact absurd hr (not_refused_of_eq rfl)
  rw [if_neg hcan] at hr ⊢
  dsimp only at hr ⊢
  by_cases hrest : n - min n c.get.available = 0
  · rw [if_pos hrest] at hr
    exact absurd hr (not_refused_of_eq rfl)
  rw [if_neg hrest] at hr ⊢
  have hall : min n c.get.available = c.get.available := by omega
  have htaken : (c.takeWindow n).2.Framed i o := h.bumpGet _
  have hreserve := htaken.halts_reserveGet (e := e) (n := n - min n c.get.available) (by
    refine ⟨?_, hr.refused⟩
    have hasked := hr.asked
    split at hasked <;> exact hasked)
  have hpos : (c.takeWindow n).2.getPos = c.getPos + c.getSize := by
    have hnext : (c.get.bump c.get.available).next = c.get.next + c.get.available :=
      Region.next_bump_of_le (Nat.le_refl _)
    rw [getPos, getPos, Mapped.takeWindow, hall]
    simp only [hnext, getSize, Nat.add_assoc]
  have hdata : (c.takeWindow n).1 = c.getData := by
    have hlimit : c.get.next + c.get.available = c.get.limit :=
      Nat.add_sub_cancel' c.get.next_le_limit
    rw [Mapped.takeWindow, hall, hlimit]
    rfl
  rw [hreserve, hpos, hdata]
  exact congrArg (Prod.mk c.getData) (((stalled_haltAt c o _).latch _).setPut _)

theorem halts_peek (h : c.Framed i o) (hr : Refused c c.peek.2 o e) :
    c.peek = (none, (c.haltAt o c.getPos).latch (some (.io e))) := by
  unfold Mapped.peek at hr ⊢
  by_cases hcan : c.canRead = false
  · rw [if_pos hcan] at hr
    exact absurd hr (not_refused_of_eq rfl)
  rw [if_neg hcan] at hr ⊢
  by_cases ha : 0 < c.get.available
  · rw [if_pos ha] at hr
    exact absurd hr (not_refused_of_eq rfl)
  rw [if_neg ha, h.limit_get_eq (Nat.eq_zero_of_not_pos ha)] at hr ⊢
  by_cases hin : c.getPos < c.size
  · rw [if_pos hin] at hr ⊢
    rw [h.halts_slide (n := 0) h.getPos_le (by
      refine ⟨?_, hr.refused⟩
      have hasked := hr.asked
      dsimp only at hasked
      split at hasked <;> exact hasked)]
  · rw [if_neg hin] at hr
    exact absurd hr (not_refused_of_eq rfl)

theorem halts_readByte (h : c.Framed i o) (hr : Refused c c.readByte.2 o e) :
    c.readByte = (none, (c.haltAt o c.getPos).latch (some (.io e))) := by
  unfold Mapped.readByte at hr ⊢
  rw [h.halts_peek (by
    refine ⟨?_, hr.refused⟩
    have hasked := hr.asked
    dsimp only at hasked
    split at hasked <;> exact hasked)]

theorem halts_write (h : c.Framed i o) {src : Bytes} (hr : Refused c (c.write src).2 o e) :
    c.write src = (0, (c.haltAt o c.putPos).latch (some (.io e))) := by
  have hpos : c.offset + c.put.consumed = c.putPos := by
    rw [h.consumed_put]
    rfl
  unfold Mapped.write at hr ⊢
  by_cases hcan : c.canWrite = false
  · rw [if_pos hcan] at hr
    exact absurd hr (not_refused_of_eq rfl)
  rw [if_neg hcan] at hr ⊢
  by_cases hfits : src.length ≤ c.put.available
  · rw [if_pos hfits] at hr
    exact absurd hr (not_refused_of_eq (windowsAsked_store c src))
  rw [if_neg hfits, hpos] at hr ⊢
  by_cases hend : c.size ≤ c.putPos
  · rw [if_pos hend] at hr
    exact absurd hr (not_refused_of_eq (windowsAsked_dropWindow _))
  rw [if_neg hend] at hr ⊢
  rw [h.halts_reservePut (by
    refine ⟨?_, hr.refused⟩
    have hasked := hr.asked
    dsimp only at hasked
    split at hasked
    · exact hasked
    · exact Nat.lt_of_lt_of_eq hasked (windowsAsked_store _ _))]

theorem halts_writeByte (h : c.Framed i o) {b : UInt8} (hr : Refused c (c.writeByte b).2 o e) :
    c.writeByte b = (false, (c.haltAt o c.putPos).latch (some (.io e))) := by
  unfold Mapped.writeByte at hr ⊢
  by_cases hcan : c.canWrite = false
  · rw [if_pos hcan] at hr
    exact absurd hr (not_refused_of_eq rfl)
  rw [if_neg hcan] at hr ⊢
  by_cases ha : 0 < c.put.available
  · rw [if_pos ha] at hr
    exact absurd hr (not_refused_of_eq (windowsAsked_store c [b]))
  rw [if_neg ha, h.limit_put_eq (Nat.eq_zero_of_not_pos ha)] at hr ⊢
  dsimp only at hr ⊢
  by_cases hend : Mapped.size { c with offset := c.putPos } ≤ c.putPos
  · rw [if_pos hend] at hr
    exact absurd hr (not_refused_of_eq (windowsAsked_dropWindow _))
  rw [if_neg hend] at hr ⊢
  rw [h.halts_slide (n := 0) h.putPos_le (by
    refine ⟨?_, hr.refused⟩
    have hasked := hr.asked
    split at hasked
    · exact hasked
    · split at hasked
      · exact hasked
      · exact Nat.lt_of_lt_of_eq hasked (windowsAsked_store _ _))]

/-- An act that is refused its window halts. -/
theorem halts (h : c.Framed i o) (hlen : c.getData.length = c.getSize) {a : Act}
    (hr : Refused c (c.perform (.act a)).2 o e) :
    ∃ x, c.halt? e a = some x ∧
      c.perform (.act a) = (x.answer, (c.haltAt o x.pos).latch x.latched) := by
  have hunlatched (d : Mapped) : d.latch none = d := by rw [Mapped.latch, Option.or_none]
  cases a with
  | op op =>
    cases op with
    | read n =>
      have hread := h.halts_read hr
      rw [← hlen] at hread
      exact ⟨_, rfl, congrArg (Prod.map Answer.bytes id) hread⟩
    | readByte => exact ⟨_, rfl, congrArg (Prod.map Answer.byte id) (h.halts_readByte hr)⟩
    | reserveGet n =>
      have hreserve := h.halts_reserveGet hr
      rw [← hunlatched (c.haltAt o c.getPos)] at hreserve
      exact ⟨_, rfl, congrArg (Prod.map Answer.number id) hreserve⟩
    | reservePut n =>
      have hreserve := h.halts_reservePut hr
      rw [← hunlatched (c.haltAt o c.putPos)] at hreserve
      exact ⟨_, rfl, congrArg (Prod.map Answer.number id) hreserve⟩
    | write src => exact ⟨_, rfl, congrArg (Prod.map Answer.count id) (h.halts_write hr)⟩
    | writeByte b => exact ⟨_, rfl, congrArg (Prod.map Answer.flag id) (h.halts_writeByte hr)⟩
    | seek origin side => exact absurd hr (not_refused_of_eq (windowsAsked_seek c origin side))
  | peek => exact ⟨_, rfl, congrArg (Prod.map Answer.byte id) (h.halts_peek hr)⟩
  | flush => exact absurd hr (not_refused_of_eq (windowsAsked_flush c))

end Framed

/-! ## Without a window to be had -/

/-- A call that asks for no other position. -/
def Call.stays : Call → Bool
  | .act (.op (.seek _ _)) | .trySeek _ => false
  | _ => true

/-- The room that is answered is there. -/
theorem room_reservePut {n room : Nat} (h : (c.reservePut n).1 = .ok room) :
    room = (c.reservePut n).2.put.available := by
  unfold Mapped.reservePut at h ⊢
  by_cases hopen : c.isOpen = false
  · rw [if_pos hopen] at h
    cases h
  by_cases hw : c.mode.isWritable = false
  · rw [if_neg hopen, if_pos hw] at h
    cases h
  rw [if_neg hopen, if_neg hw] at h ⊢
  by_cases hn : c.put.available < n
  · rw [if_pos hn] at h ⊢
    dsimp only at h ⊢
    generalize Mapped.slide { c with offset := c.offset + c.put.consumed } n = r at h ⊢
    obtain ⟨slid, d⟩ := r
    cases slid with
    | error e => cases h
    | ok u => exact (Except.ok.inj h).symm
  · rw [if_neg hn] at h ⊢
    exact (Except.ok.inj h).symm

namespace Stalled

theorem slide (hs : Stalled c pos) (h : c.Framed i o) (hno : ¬c.table.GrantsNext o) (n : Nat) :
    Stalled (c.slide n).2 pos := by
  obtain ⟨e, he⟩ := Option.ne_none_iff_exists'.1 (mt (c.table.grantsNext_iff o).2 hno)
  rcases Nat.lt_or_ge c.offset o.length with hlt | hend
  · rw [h.slide_refused hlt n he, hs.offset_eq]
    exact stalled_haltAt c o pos
  · rw [h.slide_at_end hend]
    exact stalled_dropWindow hs.offset_eq

theorem available_get (hs : Stalled c pos) : c.get.available = 0 := by rw [hs.get_eq]; rfl

theorem available_put (hs : Stalled c pos) : c.put.available = 0 := by rw [hs.put_eq]; rfl

theorem reserveGet (hs : Stalled c pos) (h : c.Framed i o) (hno : ¬c.table.GrantsNext o) (n : Nat) :
    Stalled (c.reserveGet n).2 pos := by
  have hconsumed : c.get.consumed = 0 := by rw [hs.get_eq]; rfl
  unfold Mapped.reserveGet
  rw [hconsumed]
  split
  · exact hs
  · split
    · exact hs.slide h hno n
    · exact hs

theorem reservePut (hs : Stalled c pos) (h : c.Framed i o) (hno : ¬c.table.GrantsNext o) (n : Nat) :
    Stalled (c.reservePut n).2 pos := by
  have hconsumed : c.put.consumed = 0 := by rw [hs.put_eq]; rfl
  unfold Mapped.reservePut
  rw [hconsumed]
  split
  · exact hs
  · split
    · exact hs
    · split
      · exact hs.slide h hno n
      · exact hs

theorem takeWindow (hs : Stalled c pos) (n : Nat) : (c.takeWindow n).2 = c := by
  rw [Mapped.takeWindow, Region.bump_of_available hs.available_get]

theorem read (hs : Stalled c pos) (h : c.Framed i o) (hno : ¬c.table.GrantsNext o) (n : Nat) :
    Stalled (c.read n).2 pos := by
  unfold Mapped.read
  dsimp only
  rw [hs.takeWindow]
  split
  · exact hs
  · split
    · rw [hs.setPut]
      exact hs
    · have hreserve := hs.reserveGet h hno (n - min n c.get.available)
      split
      · rw [(hreserve.latch _).setPut]
        exact hreserve.latch _
      · rw [hreserve.takeWindow, hreserve.setPut]
        exact hreserve

theorem peek (hs : Stalled c pos) (h : c.Framed i o) (hno : ¬c.table.GrantsNext o) :
    Stalled c.peek.2 pos := by
  have hlimit : c.get.limit = 0 := by rw [hs.get_eq]; rfl
  have hslide := hs.slide h hno 0
  unfold Mapped.peek
  rw [hlimit]
  split
  · exact hs
  · split
    · exact hs
    · split
      · dsimp only
        split
        · exact hslide.latch _
        · exact hslide
      · exact hs

theorem readByte (hs : Stalled c pos) (h : c.Framed i o) (hno : ¬c.table.GrantsNext o) :
    Stalled c.readByte.2 pos := by
  have hpeek := hs.peek h hno
  unfold Mapped.readByte
  dsimp only
  split
  · rw [Region.bump_of_available hpeek.available_get]
    exact hpeek
  · exact hpeek

theorem write (hs : Stalled c pos) (h : c.Framed i o) (hno : ¬c.table.GrantsNext o) (src : Bytes) :
    Stalled (c.write src).2 pos := by
  have hconsumed : c.put.consumed = 0 := by rw [hs.put_eq]; rfl
  have hle : pos ≤ c.size := by
    rw [h.size_eq, ← hs.putPos_eq]
    exact h.putPos_le
  have hreserve := hs.reservePut h hno src.length
  unfold Mapped.write
  rw [hconsumed, Nat.add_zero, hs.offset_eq]
  dsimp only
  split
  · exact hs.latch _
  · split
    · next hfits =>
      rw [hs.available_put] at hfits
      have hnil : src = [] := List.eq_nil_of_length_eq_zero (Nat.le_zero.1 hfits)
      rw [hnil, store_nil, hs.setGet]
      exact hs
    · split
      · next hend => exact stalled_dropWindow (Nat.le_antisymm hend hle)
      · split
        · exact hreserve.latch _
        · next room hok =>
          have hroom : room = 0 := (room_reservePut hok).trans hreserve.available_put
          rw [hroom, Nat.min_zero, List.take_zero, store_nil, hreserve.setGet]
          exact hreserve

theorem writeByte (hs : Stalled c pos) (h : c.Framed i o) (hno : ¬c.table.GrantsNext o)
    (b : UInt8) : Stalled (c.writeByte b).2 pos := by
  have hlimit : c.put.limit = 0 := by rw [hs.put_eq]; rfl
  have hle : c.offset ≤ c.size := h.size_eq ▸ h.offset_le
  have hslide := hs.slide h hno 0
  unfold Mapped.writeByte
  rw [hlimit]
  dsimp only
  split
  · exact hs.latch _
  · rw [hs.available_put, if_neg (Nat.lt_irrefl 0)]
    split
    · exact stalled_dropWindow ((Nat.min_eq_left hle).trans hs.offset_eq)
    · split
      · exact hslide.latch _
      · split
        · exact hslide
        · next hroom => exact absurd hslide.available_put hroom

theorem flush (hs : Stalled c pos) : Stalled c.flush.2 pos := by
  have hsync := hs.on (c.view.sync c.table).2
  unfold Mapped.flush
  dsimp only
  split
  · exact hsync
  · exact hsync.forget none
  · exact hsync

/-- No call moves the cursors while no window is to be had. -/
theorem perform (hs : Stalled c pos) (h : c.Framed i o) (hno : ¬c.table.GrantsNext o) {call : Call}
    (hstays : call.stays = true) : Stalled (c.perform call).2 pos := by
  cases call with
  | act a =>
    cases a with
    | op op =>
      cases op with
      | read n => exact hs.read h hno n
      | readByte => exact hs.readByte h hno
      | reserveGet n => exact hs.reserveGet h hno n
      | reservePut n => exact hs.reservePut h hno n
      | write src => exact hs.write h hno src
      | writeByte b => exact hs.writeByte h hno b
      | seek origin side => cases hstays
    | peek => exact hs.peek h hno
    | flush => exact hs.flush
  | takeError => exact hs.forget none
  | tryRead n =>
    have hread := hs.read h hno n
    simp only [Mapped.perform, tryRead, Prod.map, id_eq]
    split
    · exact hs
    · split
      · split
        · exact hread.forget none
        · exact hread
      · exact hread
  | tryWrite src =>
    have hwrite := hs.write h hno src
    simp only [Mapped.perform, tryWrite, Prod.map, id_eq]
    split
    · exact hwrite.forget none
    · exact hwrite
  | tryFlush => exact hs.flush
  | trySeek origin => cases hstays

/-- A seek without a window leads to a place without one. -/
theorem seek (hs : Stalled c pos) (origin : Origin) (side : Side) :
    ∃ pos', Stalled (c.seek origin side).2 pos' := by
  have hjoined : c.put.next = c.get.next := by rw [hs.put_eq, hs.get_eq]
  have hunbound : ¬c.view.isBound = true := by simp [View.isBound, hs.unbound]
  unfold Mapped.seek
  split
  · exact ⟨pos, hs⟩
  · rw [Mapped.reconcile, if_pos hjoined]
    dsimp only
    split
    · exact ⟨pos, hs⟩
    · rw [if_neg fun hin => hunbound hin.2.1]
      exact ⟨_, stalled_dropWindow rfl⟩

end Stalled

/-! ## When a window is granted again -/

/-- Both sides go on at a position: input with the bytes of the file there, output into them, and
both as far as the mapping goes. -/
structure GoesOnAt (c : Mapped) (o : Opening) (pos : Nat) : Prop where
  read : c.mode.isReadable = true → ∀ n, ∃ d,
    c.read n = (slice (c.table.file o).bytes pos (pos + min n (o.length - pos)), d) ∧
      d.getPos = pos + min n (o.length - pos)
  readByte : c.mode.isReadable = true →
    c.readByte.1 = (slice (c.table.file o).bytes pos o.length).head?
  peek : c.mode.isReadable = true → c.peek.1 = (slice (c.table.file o).bytes pos o.length).head?
  reserveGet : ∀ n, ∃ r d, c.reserveGet n = (.ok r, d) ∧ min n (o.length - pos) ≤ r ∧
    d.getPos = pos ∧ d.getData = slice (c.table.file o).bytes pos (pos + r)
  write : c.mode.isWritable = true → ∀ src, ∃ d,
    c.write src = (min src.length (o.length - pos), d) ∧
      StoresAt c d o pos (src.take (min src.length (o.length - pos)))
  writeByte : c.mode.isWritable = true → ∀ b, ∃ ok d, c.writeByte b = (ok, d) ∧
    (ok = true ↔ pos < o.length) ∧ StoresAt c d o pos (if ok then [b] else [])
  reservePut : c.mode.isWritable = true → ∀ n, ∃ r d, c.reservePut n = (.ok r, d) ∧
    min n (o.length - pos) ≤ r ∧ d.putPos = pos

theorem GoesOnAt.of_plain (h : GoesOnAt c o.plain pos) : GoesOnAt c o pos where
  read := h.read
  readByte := h.readByte
  peek := h.peek
  reserveGet := h.reserveGet
  write hw src := by
    obtain ⟨d, hwrite, hstored⟩ := h.write hw src
    exact ⟨d, hwrite, hstored.of_plain⟩
  writeByte hw b := by
    obtain ⟨ok, d, hwrite, hok, hstored⟩ := h.writeByte hw b
    exact ⟨ok, d, hwrite, hok, hstored.of_plain⟩
  reservePut := h.reservePut

/-- Without a window nothing hides the file. -/
theorem Showing.of_stalled {image : Bytes} (h : Showing m c i o image) (hs : Stalled c pos) :
    Showing m c i o (c.table.file o).bytes := by
  refine ⟨h.toLive, rfl, h.covered, fun w hw => ?_, fun _ => rfl⟩
  rw [hs.unbound] at hw
  cases hw

theorem Showing.goesOnAt {image : Bytes} (h : Showing m c i o image) (hs : Stalled c pos)
    (hg : c.table.GrantsNext o) : GoesOnAt c o pos := by
  have hfile := h.of_stalled hs
  have hget := hs.getPos_eq
  have hput := hs.putPos_eq
  constructor
  · intro hr n
    obtain ⟨r, d, hread, hk, -, hd, -, hall⟩ := hfile.read_depicted hr hfile.depicts rfl
    rw [slice_append_slice _ (Nat.le_add_right _ _) (Nat.add_le_add_left hk _),
      (hall hg).1, hget] at hread
    have hpos := hd.getPos_eq
    rw [(hall hg).1, hget] at hpos
    exact ⟨d, hread, hpos⟩
  · intro hr
    obtain ⟨d, hread, hd⟩ := hfile.readByte_eq hr
    rw [hread, ← hget]
    have hnext := hd.next?_eq hfile.depicts hfile.length_le hfile.covered hg
    rwa [ite_self] at hnext
  · intro hr
    obtain ⟨d, hpeek, hd⟩ := hfile.peek_eq hr
    rw [hpeek, ← hget]
    have hnext := hd.next?_eq hfile.depicts hfile.length_le hfile.covered hg
    rwa [ite_self] at hnext
  · intro n
    obtain ⟨r, d, hreserve, hle, -, hpos, -, hdata⟩ := hfile.reserveGet hg n
    rw [ite_self, hget] at hdata
    rw [hget] at hle hpos
    exact ⟨r, d, hreserve, hle, hpos, hdata⟩
  · intro hw src
    obtain ⟨k, d, hwrite, -, hstored, hall⟩ := (hfile.writesAt (h.mode_eq ▸ hw)).write src
    rw [hput] at hstored hall
    obtain rfl := hall hg
    exact ⟨d, hwrite, hstored⟩
  · intro hw b
    obtain ⟨ok, d, hwrite, hstored, hall⟩ := (hfile.writesAt (h.mode_eq ▸ hw)).writeByte b
    rw [hput] at hstored hall
    exact ⟨ok, d, hwrite, hall hg, hstored⟩
  · intro hw n
    obtain ⟨r, d, hreserve, hle, -, hpos, -⟩ := hfile.reservePut (h.mode_eq ▸ hw) hg n
    rw [hput] at hle hpos
    exact ⟨r, d, hreserve, hle, hpos⟩

end Mapped

end ByteChannel
