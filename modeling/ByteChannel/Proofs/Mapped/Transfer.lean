import ByteChannel.Proofs.Mapped.Framed

/-!
# Transfers at a position of the file

Wherever the window lies, a bulk transfer moves the bytes of the file at the position of its side,
and leaves both cursors behind them. Where windows are granted it stops short only at the end of the
mapping. A seek puts both cursors at its target, in the window or without one.
-/

namespace ByteChannel.Mapped

variable {c d : Mapped} {i : Nat} {o : Opening}

theorem store_nil [Paging] (c : Mapped) : c.store [] = c := if_pos rfl

theorem At.latch {pos : Nat} (h : c.At i o pos) (e : Option ChannelError) :
    (c.latch e).At i o pos :=
  { h with }

theorem At.setGet_put {pos : Nat} (h : c.At i o pos) : c.setGet c.put.next = c := by
  have hnext : c.get.next = c.put.next :=
    Nat.add_left_cancel (h.getPos_eq.trans h.putPos_eq.symm)
  have hget : Region.clamped 0 c.put.next c.view.length = c.get := by
    have hle := h.next_put_le
    rw [Region.clamped_of_le (Nat.zero_le _) hle]
    simp only [← h.base_get, ← hnext, ← h.limit_get]
  rw [setGet, hget]

namespace Framed

theorem joinPut (h : c.Framed i o) : (c.setPut c.get.next).At i o c.getPos where
  toFramed := h.setPut _
  getPos_eq := rfl
  putPos_eq := by
    change c.offset + (c.setPut c.get.next).put.next = c.getPos
    rw [next_setPut, Nat.min_eq_left h.next_get_le]
    rfl

theorem joinGet (h : c.Framed i o) : (c.setGet c.put.next).At i o c.putPos where
  toFramed := h.setGet _
  getPos_eq := by
    change c.offset + (c.setGet c.put.next).get.next = c.putPos
    rw [next_setGet, Nat.min_eq_left h.next_put_le]
    rfl
  putPos_eq := rfl

theorem latch (h : c.Framed i o) (e : Option ChannelError) : (c.latch e).Framed i o := { h with }

theorem available_get_le (h : c.Framed i o) : c.getPos + c.get.available ≤ o.length := by
  have := h.window_le
  have := h.next_get_le
  rw [h.available_get, getPos]
  omega

theorem available_put_le (h : c.Framed i o) : c.putPos + c.put.available ≤ o.length := by
  have := h.window_le
  have := h.next_put_le
  rw [h.available_put, putPos]
  omega

/-! ## Reading -/

section

variable [Paging]

theorem getData_eq (h : c.Framed i o) {image : Bytes} (himage : c.Depicts o image) :
    c.getData = slice image c.getPos (c.getPos + c.getSize) := by
  have hlimit : c.offset + min c.get.limit c.view.length = c.getPos + c.getSize := by
    have := h.next_get_le
    rw [getPos, getSize, h.available_get, h.limit_get, Nat.min_self]
    omega
  rw [getData, h.range_eq himage, hlimit]
  rfl

theorem takeWindow (h : c.Framed i o) {image : Bytes} (himage : c.Depicts o image) {n k : Nat}
    (hk : min n c.get.available = k) :
    ∃ d, c.takeWindow n = (slice image c.getPos (c.getPos + k), d) ∧ d.Framed i o ∧ Keeps c d ∧
      d.getPos = c.getPos + k ∧ d.error = c.error ∧ d.get.available = c.get.available - k := by
  have hle : k ≤ c.get.available := hk ▸ Nat.min_le_right _ _
  have hnext : (c.get.bump k).next = c.get.next + k := Region.next_bump_of_le hle
  have hmin : min (c.get.next + k) c.view.length = c.get.next + k := by
    have := h.next_get_le
    rw [h.available_get] at hle
    omega
  refine ⟨{ c with get := c.get.bump k }, ?_, h.bumpGet k, .of_eq rfl rfl rfl rfl, ?_, rfl, ?_⟩
  · rw [Mapped.takeWindow, hk, h.range_eq himage, hmin, getPos, Nat.add_assoc]
  · simp only [getPos, hnext, Nat.add_assoc]
  · simp only [Region.available, hnext, Region.limit_bump]
    omega

/-- Reserved input starts where input was, and is short only at the end of the mapping or where a
window was refused. If another window was asked for the put cursor is there too. -/
theorem reserveGet (h : c.Framed i o) (n : Nat) :
    ∃ r d, c.reserveGet n = (r, d) ∧ d.Framed i o ∧ Keeps c d ∧
      (d.getPos = c.getPos ∧ d.putPos = if c.getSize < n then c.getPos else c.putPos) ∧
      (c.LatchesSync → d.LatchesSync) ∧ (c.get.available < n → d.Bare) ∧
      ((r = .ok d.get.available ∧ min n (o.length - c.getPos) ≤ d.get.available) ∨
        (∃ e, r = .error e) ∧ ¬c.table.GrantsNext o) := by
  unfold Mapped.reserveGet
  rw [if_neg (by simp [h.isOpen]), getSize]
  by_cases hn : c.get.available < n
  · obtain ⟨r, d, hslide, hd, hkeeps, -, hsync, hbare, hcase⟩ := h.slide h.getPos_le n
    have hpos := And.intro hd.getPos_eq hd.putPos_eq
    rw [if_pos hn, if_pos hn, h.consumed_get, show c.offset + c.get.next = c.getPos from rfl]
    simp only [hslide]
    obtain ⟨rfl, hroom, -⟩ | ⟨⟨e, rfl⟩, -, -, hno⟩ := hcase
    · exact ⟨_, d, rfl, hd.toFramed, hkeeps, hpos, hsync, fun _ => hbare, .inl ⟨rfl, by omega⟩⟩
    · exact ⟨_, d, rfl, hd.toFramed, hkeeps, hpos, hsync, fun _ => hbare, .inr ⟨⟨e, rfl⟩, hno⟩⟩
  · rw [if_neg hn, if_neg hn]
    exact ⟨_, c, rfl, h, .refl c, ⟨rfl, rfl⟩, id, fun hlt => absurd hlt hn,
      .inl ⟨rfl, by omega⟩⟩

/-- The bytes read are those that the window depicts from the get cursor on, and behind the window
those of the file. -/
theorem read_depicted (h : c.Framed i o) (hmode : c.mode.isReadable = true) {image : Bytes}
    (himage : c.Depicts o image) {n k : Nat} (hk : min n c.get.available = k) :
    ∃ m d, c.read n = (slice image c.getPos (c.getPos + k) ++
        slice (c.table.file o).bytes (c.getPos + k) (c.getPos + m), d) ∧
      k ≤ m ∧ m ≤ min n (o.length - c.getPos) ∧ d.At i o (c.getPos + m) ∧ Keeps c d ∧
      (c.table.GrantsNext o →
        m = min n (o.length - c.getPos) ∧ (c.LatchesSync → d.LatchesSync)) := by
  have hroom := h.available_get_le
  obtain ⟨d₁, htake, hd₁, hkeeps₁, hpos₁, herr₁, havail₁⟩ := h.takeWindow himage hk
  have hsync₁ (hc : c.LatchesSync) : d₁.LatchesSync := hc.congr hkeeps₁.table herr₁
  have hasked₁ : d₁.table.windowsAsked = c.table.windowsAsked := by
    rw [show d₁ = (c.takeWindow n).2 from congrArg Prod.snd htake.symm]
    rfl
  unfold Mapped.read
  rw [if_neg (by simp [h.canRead hmode]), hk]
  simp only [htake]
  by_cases hrest : n - k = 0
  · rw [if_pos hrest]
    refine ⟨k, _, ?_, Nat.le_refl k, by omega, hpos₁ ▸ hd₁.joinPut,
      hkeeps₁.trans (keeps_setPut _ _), fun _ => ⟨by omega, hsync₁⟩⟩
    rw [slice_of_stop_le_start _ (Nat.le_refl _), List.append_nil]
  · rw [if_neg hrest]
    obtain ⟨r, d₂, hreserve, hd₂, hkeeps₂, ⟨hpos₂, -⟩, hsync₂, hbare, hcase⟩ :=
      hd₁.reserveGet (n - k)
    have hkeeps := hkeeps₁.trans hkeeps₂
    rw [hpos₁] at hpos₂ hcase
    simp only [hreserve]
    obtain ⟨rfl, hle⟩ | ⟨⟨e, rfl⟩, hno⟩ := hcase
    · obtain ⟨k₂, hk₂⟩ : ∃ k₂, min (n - k) d₂.get.available = k₂ := ⟨_, rfl⟩
      obtain ⟨d₃, htake₃, hd₃, hkeeps₃, hpos₃, herr₃, -⟩ :=
        hd₂.takeWindow (depicts_of_bare (hbare (by omega))) hk₂
      have hroom₂ := hd₂.available_get_le
      rw [hpos₂] at htake₃ hpos₃ hroom₂
      rw [hkeeps.table.file] at htake₃
      refine ⟨k + k₂, d₃.setPut d₃.get.next, ?_, by omega, by omega, ?_,
        (hkeeps.trans hkeeps₃).trans (keeps_setPut _ _), ?_⟩
      · rw [htake₃, Nat.add_assoc]
      · rw [← Nat.add_assoc, ← hpos₃]
        exact hd₃.joinPut
      · exact fun _ => ⟨by omega, fun hc => (hsync₂ (hsync₁ hc)).congr hkeeps₃.table herr₃⟩
    · refine ⟨k, (d₂.latch (some e)).setPut d₂.get.next, ?_, Nat.le_refl k, by omega, ?_,
        hkeeps.trans (.of_eq rfl rfl rfl rfl), ?_⟩
      · rw [slice_of_stop_le_start _ (Nat.le_refl _), List.append_nil]
        rfl
      · rw [← hpos₂]
        exact (hd₂.latch _).joinPut
      · exact fun hg => absurd (hkeeps₁.table.grantsNext hasked₁ hg) hno

/-- Over a shared mapping the bytes read are those of the file from the get cursor on. -/
theorem read (h : c.Framed i o) (hmode : c.mode.isReadable = true) (hshared : o.mode ≠ .copyOnWrite)
    (n : Nat) :
    ∃ m d, c.read n = (slice (c.table.file o).bytes c.getPos (c.getPos + m), d) ∧
      m ≤ min n (o.length - c.getPos) ∧ d.At i o (c.getPos + m) ∧ Keeps c d ∧
      (c.table.GrantsNext o →
        m = min n (o.length - c.getPos) ∧ (c.LatchesSync → d.LatchesSync)) := by
  obtain ⟨m, d, hread, hk, hm, hd⟩ := h.read_depicted hmode (h.depicts_file hshared) rfl
  rw [slice_append_slice _ (Nat.le_add_right _ _) (Nat.add_le_add_left hk _)] at hread
  exact ⟨m, d, hread, hm, hd⟩

/-! ## Writing -/

theorem reservePut (h : c.Framed i o) (hmode : c.mode.isWritable = true) (n : Nat) :
    ∃ r d, c.reservePut n = (r, d) ∧ d.Framed i o ∧ Keeps c d ∧
      (d.putPos = c.putPos ∧
        d.getPos = if c.put.available < n then c.putPos else c.getPos) ∧
      (c.LatchesSync → d.LatchesSync) ∧
      ((r = .ok d.put.available ∧ min n (o.length - c.putPos) ≤ d.put.available) ∨
        (∃ e, r = .error e) ∧ d.At i o c.putPos ∧ ¬c.table.GrantsNext o) := by
  unfold Mapped.reservePut
  rw [if_neg (by simp [h.isOpen]), if_neg (by simp [hmode])]
  by_cases hn : c.put.available < n
  · obtain ⟨r, d, hslide, hd, hkeeps, -, hsync, -, hcase⟩ := h.slide h.putPos_le n
    have hpos := And.intro hd.putPos_eq hd.getPos_eq
    rw [if_pos hn, if_pos hn, h.consumed_put, show c.offset + c.put.next = c.putPos from rfl]
    simp only [hslide]
    obtain ⟨rfl, -, hroom⟩ | ⟨⟨e, rfl⟩, -, -, hno⟩ := hcase
    · exact ⟨_, d, rfl, hd.toFramed, hkeeps, hpos, hsync, .inl ⟨rfl, by omega⟩⟩
    · exact ⟨_, d, rfl, hd.toFramed, hkeeps, hpos, hsync, .inr ⟨⟨e, rfl⟩, hd, hno⟩⟩
  · rw [if_neg hn, if_neg hn]
    exact ⟨_, c, rfl, h, .refl c, ⟨rfl, rfl⟩, id, .inl ⟨rfl, by omega⟩⟩

/-- Bytes that fit into a shared window are stored in the file, and the get cursor is brought behind
them. -/
theorem store (h : c.Framed i o) (hshared : o.mode = .readWrite) {bs : Bytes}
    (hbs : bs.length ≤ c.put.available) :
    ∃ d, c.store bs = d ∧ (d.setGet d.put.next).At i o (c.putPos + bs.length) ∧
      Keeps { c with table := c.table.lay o c.putPos bs } (d.setGet d.put.next) ∧
      (c.LatchesSync → (d.setGet d.put.next).LatchesSync) := by
  have hd : Framed { c with table := c.table.lay o c.putPos bs } i o :=
    { h with opened := (c.table.opened?_lay o _ bs i).trans h.opened }
  have hpos : c.putPos + bs.length = c.offset + (c.put.bump bs.length).next := by
    rw [Region.next_bump_of_le hbs, putPos, Nat.add_assoc]
  refine ⟨_, h.store_eq hshared hbs, ?_, .of_eq rfl rfl rfl rfl, ?_⟩
  · rw [hpos]
    exact (hd.bumpPut bs.length).joinGet
  · intro hc e he
    obtain ⟨hmsg, n, hn⟩ := hc e he
    exact ⟨hmsg, n, by rw [← hn, ← c.table.refusesSync_lay o c.putPos bs]; rfl⟩

theorem store_copying (h : c.Framed i o) (hmode : o.mode = .copyOnWrite) {w : Window}
    (hw : c.view.window = some w) (bs : Bytes) :
    let copies := View.copyBytes (c.table.file o) w.copies c.putPos bs
    let v : View := { c.view with window := some { w with copies := copies } }
    c.store bs = { c with view := v, put := c.put.bump bs.length } ∧
      Framed { c with view := v, put := c.put.bump bs.length } i o := by
  intro copies v
  obtain ⟨hat, hoff⟩ := h.bound w hw
  have hl : v.length = c.view.length := by simp [View.length, hw, v]
  refine ⟨?_, { h with
    limit_get := hl.symm ▸ h.limit_get
    limit_put := hl.symm ▸ h.limit_put
    window_le := hl.symm ▸ h.window_le
    bound := fun _ _ => ⟨hat, hoff⟩
    bare := fun _ _ hbare => absurd hmode hbare }⟩
  by_cases hnil : bs = []
  · have hv : v = c.view := by
      simp only [v, copies, hnil, View.copyBytes_nil, ← hw]
    rw [Mapped.store, if_pos hnil, hv, hnil, List.length_nil, Region.bump_zero]
  · obtain ⟨held, hheld, hplain⟩ := h.exists_opening
    have hv : c.view.opening? c.table = some held := by
      rw [View.opening?, hat]
      exact hheld
    have hmode : held.mode = .copyOnWrite := by rwa [← hplain] at hmode
    have hfile : c.table.file held = c.table.file o := by rw [← hplain]; rfl
    have hstore : c.view.store? c.table c.put.next bs = some (v, c.table) := by
      rw [View.store?, hv, hw]
      simp only [hmode, hfile, hoff, v, copies, putPos]
    rw [Mapped.store, if_neg hnil, hstore]

/-- Whatever a writable window is, stored bytes move only the put cursor, and reach the file where
the mapping shares its changes. -/
theorem store_moves (h : c.Framed i o) (hmode : o.mode ≠ .readOnly) {bs : Bytes}
    (hbs : bs.length ≤ c.put.available) :
    ∃ v d, c.store bs = d ∧ d.Framed i o ∧
      d = { c with
        view := v
        table := c.table.lay o c.putPos (o.passes bs)
        put := c.put.bump bs.length } := by
  cases hm : o.mode with
  | readOnly => exact absurd hm hmode
  | readWrite =>
    have hd : Framed { c with table := c.table.lay o c.putPos bs } i o :=
      { h with opened := (c.table.opened?_lay o _ bs i).trans h.opened }
    rw [Opening.passes, if_pos hm]
    exact ⟨c.view, _, h.store_eq hm hbs, hd.bumpPut bs.length, rfl⟩
  | copyOnWrite =>
    rw [Opening.passes, if_neg (by rw [hm]; decide), MapTable.lay_nil]
    cases hw : c.view.window with
    | none =>
      have hl := View.length_unbound hw
      rw [h.available_put, hl, Nat.zero_sub, Nat.le_zero, List.length_eq_zero_iff] at hbs
      refine ⟨c.view, _, ?_, h.bumpPut bs.length, rfl⟩
      rw [hbs, store_nil, List.length_nil, Region.bump_zero]
    | some w =>
      obtain ⟨hstore, hd⟩ := h.store_copying hm hw bs
      exact ⟨_, _, hstore, hd, rfl⟩

/-- Bytes are stored at the put cursor as far as there is room for them, in the window or in another
one that was asked for. -/
theorem write_eq (h : c.Framed i o) (hmode : c.mode.isWritable = true) (src : Bytes) :
    ∃ m d, c.write src = (m, (d.store (src.take m)).setGet (d.store (src.take m)).put.next) ∧
      d.Framed i o ∧ Keeps c d ∧ d.putPos = c.putPos ∧ (src.take m).length = m ∧
      m ≤ d.put.available ∧
      (c.table.GrantsNext o →
        m = min src.length (o.length - c.putPos) ∧ (c.LatchesSync → d.LatchesSync)) := by
  have hroom := h.available_put_le
  have hpos := h.putPos_le
  -- nothing is stored where no window could be had
  have hnothing {d : Mapped} (hd : d.At i o c.putPos) :
      (d.store (src.take 0)).setGet (d.store (src.take 0)).put.next = d := by
    rw [List.take_zero, store_nil]
    exact hd.setGet_put
  unfold Mapped.write
  rw [if_neg (by simp [h.canWrite hmode])]
  by_cases hfits : src.length ≤ c.put.available
  · rw [if_pos hfits]
    refine ⟨src.length, c, ?_, h, .refl c, rfl, ?_, hfits, fun _ => ⟨by omega, id⟩⟩
    · rw [List.take_length]
    · rw [List.take_length]
  rw [if_neg hfits, h.size_eq, h.consumed_put, show c.offset + c.put.next = c.putPos from rfl]
  by_cases hend : o.length ≤ c.putPos
  · have hover : Over { c with offset := o.length } i o := ⟨h.holds, h.opened, Nat.le_refl _⟩
    have hd := hover.dropWindow
    rw [show Mapped.offset { c with offset := o.length } = c.putPos from
      Nat.le_antisymm hend hpos] at hd
    rw [if_pos hend]
    refine ⟨0, _, ?_, hd.toFramed, keeps_dropWindow c _, hd.putPos_eq, rfl, Nat.zero_le _,
      fun _ => ⟨by omega, fun hc => LatchesSync.dropWindow hc⟩⟩
    rw [hnothing hd]
  rw [if_neg hend]
  obtain ⟨r, d, hreserve, hd, hkeeps, ⟨hput, -⟩, hsync, hcase⟩ := h.reservePut hmode src.length
  simp only [hreserve]
  obtain ⟨rfl, hle⟩ | ⟨⟨e, rfl⟩, hat, hno⟩ := hcase
  · refine ⟨min src.length d.put.available, d, rfl, hd, hkeeps, hput, ?_, Nat.min_le_right _ _,
      fun _ => ⟨?_, hsync⟩⟩
    · rw [List.length_take]
      omega
    · have := hd.available_put_le
      omega
  · have hd := hat.latch (some e)
    refine ⟨0, d.latch (some e), ?_, hd.toFramed, hkeeps.trans (keeps_latch d _), hd.putPos_eq, rfl,
      Nat.zero_le _, fun hg => absurd hg hno⟩
    rw [hnothing hd]

theorem write (h : c.Framed i o) (hmode : c.mode.isWritable = true) (hshared : o.mode = .readWrite)
    (src : Bytes) :
    ∃ m d, c.write src = (m, d) ∧ m ≤ min src.length (o.length - c.putPos) ∧
      d.At i o (c.putPos + m) ∧
      Keeps { c with table := c.table.lay o c.putPos (src.take m) } d ∧
      (c.table.Grants o →
        m = min src.length (o.length - c.putPos) ∧ (c.LatchesSync → d.LatchesSync)) := by
  obtain ⟨m, d, hwrite, hd, hkeeps, hput, hlen, hm, hgranted⟩ := h.write_eq hmode src
  have hle : (src.take m).length ≤ d.put.available := hlen.symm ▸ hm
  have hroom := hd.available_put_le
  obtain ⟨e, hstore, he, hkeeps', hsync⟩ := hd.store hshared hle
  rw [hput] at he hkeeps' hroom
  rw [hlen] at he
  rw [hstore] at hwrite
  refine ⟨m, _, hwrite, ?_, he, (hkeeps.lay o _ _).trans hkeeps', fun hg => ?_⟩
  · rw [List.length_take] at hlen
    omega
  · obtain ⟨hall, hlatches⟩ := hgranted hg.next
    exact ⟨hall, fun hc => hsync (hlatches hc)⟩

/-! ## Seeking -/

end

theorem reconcile (h : c.Framed i o) (side : Side) :
    ∃ d, c.reconcile side = d ∧ Keeps c d ∧ d.error = c.error ∧
      d.At i o (if side.includesGet then c.getPos else c.putPos) := by
  unfold Mapped.reconcile
  by_cases hjoined : c.put.next = c.get.next
  · have hpos : c.putPos = c.getPos := by rw [putPos, getPos, hjoined]
    rw [if_pos hjoined, hpos, ite_self]
    exact ⟨c, rfl, .refl c, rfl, h, rfl, hpos⟩
  · rw [if_neg hjoined]
    cases side.includesGet with
    | true => exact ⟨_, rfl, keeps_setPut c _, rfl, h.joinPut⟩
    | false => exact ⟨_, rfl, keeps_setGet c _, rfl, h.joinGet⟩

theorem place (h : c.Framed i o) {pos : Nat} (hle : c.offset ≤ pos)
    (hin : pos - c.offset ≤ c.view.length) :
    ((c.setGet (pos - c.offset)).setPut (pos - c.offset)).At i o pos where
  toFramed := (h.setGet _).setPut _
  getPos_eq := by
    change c.offset + (c.setGet _).get.next = pos
    rw [next_setGet, Nat.min_eq_left hin, Nat.add_sub_cancel' hle]
  putPos_eq := by
    change c.offset + (c.setPut _).put.next = pos
    rw [next_setPut, Nat.min_eq_left hin, Nat.add_sub_cancel' hle]

/-- A seek answers where both cursors are then. -/
theorem seek (h : c.Framed i o) (hword : o.length ≤ maxWord) (origin : Origin) (side : Side) :
    ∃ d, let pos := origin.clampedTarget (if side.includesGet then c.getPos else c.putPos) o.length
      c.seek origin side = (.ok pos, d) ∧ d.At i o pos ∧ Keeps c d ∧
        (c.LatchesSync → d.LatchesSync) := by
  obtain ⟨d, hd, hkeeps, herr, hat⟩ := h.reconcile side
  have hopen : ¬c.isOpen = false := by simp [h.isOpen]
  have hsync (hc : c.LatchesSync) : d.LatchesSync := hc.congr hkeeps.table herr
  unfold Mapped.seek
  rw [if_neg hopen, hd]
  dsimp only
  rw [hat.size_eq, hat.getPos_eq]
  generalize (if side.includesGet then c.getPos else c.putPos) = here at hat
  have hhere : here ≤ o.length := hat.getPos_eq ▸ hat.toFramed.getPos_le
  by_cases hstay : origin = .current 0
  · have hpos : origin.clampedTarget here o.length = here := by
      have := origin.clampedTarget_eq hhere hword
      rw [hstay, Origin.target] at this
      rw [hstay]
      omega
    rw [if_pos hstay, hpos]
    exact ⟨d, rfl, hat, hkeeps, hsync⟩
  · rw [if_neg hstay]
    have hpos := origin.clampedTarget_le here o.length
    generalize origin.clampedTarget here o.length = pos at hpos
    split
    · next hin =>
      exact ⟨_, rfl, hat.toFramed.place hin.1 hin.2.2,
        (hkeeps.trans (keeps_setGet _ _)).trans (keeps_setPut _ _), hsync⟩
    · have hover : Over { d with offset := pos } i o := ⟨hat.holds, hat.opened, hpos⟩
      exact ⟨_, rfl, hover.dropWindow, hkeeps.trans (keeps_dropWindow d pos),
        fun hc => LatchesSync.dropWindow (hsync hc)⟩

/-! ## Flushing -/

theorem flush (h : c.Framed i o) :
    Keeps c c.flush.2 ∧ c.flush.2.Framed i o ∧ c.flush.2.offset = c.offset ∧
      c.flush.2.get = c.get ∧ c.flush.2.put = c.put := by
  have hlike := View.like_sync c.view c.table
  have hasked := View.windowsAsked_sync c.view c.table
  have hkept {e : Option ChannelError} {d : Mapped}
      (hd : d = { c with table := (c.view.sync c.table).2, error := e }) :
      Keeps c d ∧ d.Framed i o ∧ d.offset = c.offset ∧ d.get = c.get ∧ d.put = c.put := by
    subst hd
    exact ⟨⟨rfl, rfl, hlike, .of_eq rfl hasked⟩,
      { h with opened := (hlike.opened i).trans h.opened }, rfl, rfl, rfl⟩
  unfold Mapped.flush
  dsimp only
  split
  · exact hkept rfl
  · exact hkept rfl
  · exact hkept rfl

end Framed

end ByteChannel.Mapped
