import ByteChannel.Proofs.Buffered.Coding
import ByteChannel.Proofs.Buffered.CoherentCalls

/-!
# What a channel holds back from its device

A healthy channel over a reliable device is told apart from the file that the device shows by two
runs of bytes: the input that was read ahead and is unread, and the output that waits. Never are
there both. A sync sends the one or gives back the other.
-/

namespace ByteChannel

open Reliable Text

/-- The file with the input `u` given back. -/
def File.rewound (f : File) (text : Bool) (u : Bytes) : File := f.back (encoded text u).length

@[simp] theorem File.rewound_nil (f : File) (text : Bool) : f.rewound text [] = f := by
  rw [rewound, encoded_nil]
  rfl

@[simp] theorem File.bytes_rewound (f : File) (text : Bool) (u : Bytes) :
    (f.rewound text u).bytes = f.bytes := rfl

namespace Buffered

variable {σ : Type}

/-- All unread input, what is parked behind the cell included. -/
def stock (c : Buffered σ) : Bytes := c.ahead ++ if c.onCell then c.buffer.take c.filled else []

variable {c : Buffered σ}

theorem length_ahead (h : Coherent c) : c.ahead.length = c.get.available := by
  have hn := c.get.next_le_limit
  have hf := h.filled_le
  unfold ahead Region.available
  by_cases hc : c.onCell = true
  · have hl := h.cell_limit hc
    rw [if_pos hc, length_slice, List.length_singleton]
    omega
  · have hl := h.get_limit (by simpa using hc)
    rw [if_neg hc, length_slice]
    omega

theorem ahead_eq_nil_iff (h : Coherent c) : c.ahead = [] ↔ c.get.available = 0 := by
  rw [← length_ahead h, List.length_eq_zero_iff]

theorem drop_slice (bs : Bytes) (start stop k : Nat) :
    (slice bs start stop).drop k = slice bs (start + k) stop := by
  rw [slice, slice, List.drop_take, List.drop_drop, Nat.sub_sub]

theorem ahead_bump {k : Nat} (hk : k ≤ c.get.available) :
    ahead { c with get := c.get.bump k } = c.ahead.drop k := by
  unfold ahead
  simp only [Region.limit_bump, Region.next_bump_of_le hk]
  by_cases hc : c.onCell = true
  · rw [if_pos hc, if_pos hc, drop_slice]
  · rw [if_neg hc, if_neg hc, drop_slice]

theorem ahead_prefix_stock (c : Buffered σ) : c.ahead <+: c.stock := List.prefix_append _ _

theorem length_stock (h : Coherent c) : c.stock.length = c.unreadCount := by
  rw [stock, List.length_append, length_ahead h, unreadCount]
  by_cases hc : c.onCell = true
  · rw [if_pos hc, if_pos hc, List.length_take, Nat.min_eq_left h.filled_le]
  · rw [if_neg hc, if_neg hc]
    rfl

theorem stock_eq_nil_iff (h : Coherent c) : c.stock = [] ↔ c.unreadCount = 0 := by
  rw [← length_stock h, List.length_eq_zero_iff]

theorem stock_of_not_onCell (hc : c.onCell = false) : c.stock = c.ahead := by
  simp [stock, hc]

theorem ahead_of_cell (h : Coherent c) (hc : c.onCell = true) (ha : 0 < c.get.available) :
    c.ahead = [c.cell] := by
  have hl := h.cell_limit hc
  have hn := c.get.next_le_limit
  simp only [Region.available] at ha
  have hnext : c.get.next = 0 := by omega
  have hlimit : c.get.limit = 1 := by omega
  rw [ahead, if_pos hc, hnext, hlimit]
  rfl

theorem head?_stock (h : Coherent c) (ha : 0 < c.get.available) :
    c.stock.head? = some c.current := by
  have hhead : c.ahead.head? = some c.current := by
    by_cases hc : c.onCell = true
    · rw [ahead_of_cell h hc ha, current, if_pos hc]
      rfl
    · have hl := h.get_limit (by simpa using hc)
      have hf := h.filled_le
      simp only [Region.available] at ha
      have hlt : c.get.next < c.buffer.length := by omega
      have hne : ¬ c.get.limit - c.get.next = 0 := by omega
      rw [ahead, if_neg hc, slice, List.head?_take, if_neg hne, List.head?_drop, current,
        if_neg hc, List.getD_eq_getElem?_getD, List.getElem?_eq_getElem hlt]
      rfl
  rw [stock, List.head?_append, hhead]
  rfl

/-- A text channel goes back over two bytes for every line feed. -/
theorem unreadSpan_eq (h : Coherent c) : c.unreadSpan = (encoded c.text c.stock).length := by
  unfold unreadSpan
  by_cases ht : c.text = true
  · rw [if_pos ht, ht, encoded_true, length_expand, length_stock h, Nat.add_assoc]
    have hparked : countNewlines (if c.onCell then c.buffer.take c.filled else []) =
        if c.onCell then countNewlines (c.buffer.take c.filled) else 0 := by
      by_cases hc : c.onCell = true
      · rw [if_pos hc, if_pos hc]
      · rw [if_neg hc, if_neg hc]
        rfl
    rw [stock, countNewlines_append, hparked]
    congr 2
    by_cases ha : c.get.available = 0
    · rw [if_pos ha, (ahead_eq_nil_iff h).2 ha]
      rfl
    rw [if_neg ha]
    by_cases hc : c.onCell = true
    · rw [if_pos hc, ahead_of_cell h hc (Nat.pos_of_ne_zero ha)]
      simp [countNewlines, List.count_cons]
    · rw [if_neg hc, ahead, if_neg hc]
  · rw [if_neg ht, ← length_stock h]
    simp only [Bool.not_eq_true] at ht
    rw [ht, encoded_false]

theorem length_pending (h : Coherent c) : c.pending.length = c.put.consumed := by
  have hn := c.put.next_le_limit
  have hb := h.put_base
  rw [pending, length_slice, Region.consumed]
  by_cases hc : c.put.isCollapsed = true
  · rw [Region.isCollapsed_iff hb] at hc
    omega
  · have hl := h.put_limit (by simpa using hc)
    omega

theorem stock_of_clamped {k : Nat} (hg : c.get = .clamped 0 k c.filled)
    (hf : c.filled ≤ c.buffer.length) (hc : c.onCell = false) :
    c.stock = (c.buffer.take c.filled).drop k := by
  have hl : (c.buffer.take c.filled).length = c.filled := List.length_take_of_le hf
  rw [stock_of_not_onCell hc]
  simp only [ahead, hc, Bool.false_eq_true, if_false, hg, Region.next_clamped,
    Region.limit_clamped, slice]
  rw [← List.drop_take]
  by_cases hk : k ≤ c.filled
  · rw [Nat.min_eq_left hk]
  · have hk' : c.filled ≤ k := Nat.le_of_lt (Nat.lt_of_not_le hk)
    rw [Nat.min_eq_right hk', List.drop_eq_nil_of_le (Nat.le_of_eq hl),
      List.drop_eq_nil_of_le (hl.symm ▸ hk')]

theorem stock_bump (h : Coherent c) {k : Nat} (hk : k ≤ c.get.available) :
    stock { c with get := c.get.bump k } = c.stock.drop k := by
  have hl : k ≤ c.ahead.length := by rwa [length_ahead h]
  rw [stock, stock, ahead_bump hk, List.drop_append_of_le_length hl]

theorem pending_of_put_empty (hp : c.put = .empty) : c.pending = [] := by
  rw [Buffered.pending, hp]
  exact slice_of_stop_le_start _ (Nat.le_refl 0)

theorem pending_reset (c : Buffered σ) : c.reset.pending = [] := by
  unfold Buffered.pending reset
  by_cases hw : c.mode.isWritable = true
  · simp only [if_pos hw]
    exact slice_of_stop_le_start _ (Nat.zero_le _)
  · simp only [if_neg hw]
    exact slice_of_stop_le_start _ (Nat.le_refl 0)

theorem pending_openPut (h : Coherent c) : c.openPut.pending = c.pending := by
  rw [openPut_spec, Buffered.pending]
  by_cases hput : c.put.isCollapsed = true
  · have hz := length_pending h
    rw [Region.consumed_of_isCollapsed hput] at hz
    simp only [if_pos hput]
    rw [List.length_eq_zero_iff.1 hz]
    exact slice_of_stop_le_start _ (Nat.zero_le _)
  · simp only [if_neg hput]
    rfl

theorem pending_place (h : Coherent c) {bs : Bytes} (hb : bs.length ≤ c.put.available) :
    (c.place bs).pending = c.pending ++ bs := by
  have hbase := h.put_base
  have hle := c.put.next_le_limit
  have hnext : (c.put.bump bs.length).next = c.put.next + bs.length := Region.next_bump_of_le hb
  have hgap : c.put.next - c.buffer.length = 0 := by
    by_cases hc : c.put.isCollapsed = true
    · rw [Region.isCollapsed_iff hbase] at hc
      omega
    · have hl := h.put_limit (by simpa using hc)
      omega
  simp only [Buffered.pending, Buffered.place, slice, Region.base_bump, hbase, hnext,
    List.drop_zero, Nat.sub_zero]
  rw [take_overwrite_add, hgap, List.replicate_zero, List.append_nil]

theorem SameRegions.stock {c' : Buffered σ} (h : SameRegions c c') : c'.stock = c.stock := by
  rw [Buffered.stock, Buffered.stock, ahead, ahead, h.onCell, h.cell, h.get, h.buffer, h.filled]

theorem SameRegions.pending {c' : Buffered σ} (h : SameRegions c c') : c'.pending = c.pending := by
  rw [Buffered.pending, Buffered.pending, h.buffer, h.put]

variable [Device σ] [Reliable σ] {mode : OpenMode} {text : Bool} {u p : Bytes}
  {f g : File}

/-- The channel is open and without error, and its device shows `f`. -/
structure Healthy (mode : OpenMode) (text : Bool) (c : Buffered σ) (f : File) : Prop where
  mode_eq : c.mode = mode
  text_eq : c.text = text
  expander : c.expander.isSome = (text && mode.isWritable)
  error_eq : c.error = none
  shows : ∃ d, c.device = some d ∧ Shows d f

/-- A healthy channel with `u` unread and `p` waiting. -/
structure Held (mode : OpenMode) (text : Bool) (c : Buffered σ) (u p : Bytes) (f : File) : Prop
    extends Healthy mode text c f where
  coherent : Coherent c
  stock_eq : c.stock = u
  pending_eq : c.pending = p

/-- The unread input fits before the position of the device, and the position is one to go back
from. -/
def Rewinds (σ : Type) [Device σ] [Reliable σ] (text : Bool) (u : Bytes) (f : File) : Prop :=
  u ≠ [] → (encoded text u).length ≤ f.pos ∧ f.pos ≤ top σ

namespace Healthy

theorem isOpen (h : Healthy mode text c f) : c.isOpen = true := by
  obtain ⟨d, hd, _⟩ := h.shows
  rw [Buffered.isOpen, hd]
  rfl

theorem canRead (h : Healthy mode text c f) : c.canRead = mode.isReadable := by
  rw [Buffered.canRead, h.isOpen, h.mode_eq, Bool.true_and]

theorem canWrite (h : Healthy mode text c f) : c.canWrite = mode.isWritable := by
  rw [Buffered.canWrite, h.isOpen, h.mode_eq, Bool.true_and]

end Healthy

namespace Held

theorem unreadCount (h : Held mode text c u p f) : c.unreadCount = u.length := by
  rw [← length_stock h.coherent, h.stock_eq]

theorem consumed (h : Held mode text c u p f) : c.put.consumed = p.length := by
  rw [← length_pending h.coherent, h.pending_eq]

theorem pending_of_collapsed (h : Held mode text c u p f) (hput : c.put.isCollapsed = true) :
    p = [] := by
  rw [← List.length_eq_zero_iff, ← h.consumed, Region.consumed_of_isCollapsed hput]

theorem pending_eq_nil (h : Held mode text c u p f) (hu : u ≠ []) : p = [] := by
  apply h.pending_of_collapsed
  apply h.coherent.isCollapsed_of_unread
  rw [h.unreadCount]
  exact fun hz => hu (List.length_eq_zero_iff.1 hz)

theorem isWritable (h : Held mode text c u p f) (hp : p ≠ []) : mode.isWritable = true := by
  by_cases hw : c.mode.isWritable = true
  · rwa [h.mode_eq] at hw
  · have hz := h.consumed
    rw [h.coherent.no_output (by simpa using hw)] at hz
    exact absurd (List.length_eq_zero_iff.1 hz.symm) hp

theorem eq_nil_of_not_isReadable (h : Held mode text c u p f) (hr : mode.isReadable = false) :
    u = [] := by
  have hz := h.coherent.no_input (by rw [h.mode_eq, hr])
  rwa [h.unreadCount, List.length_eq_zero_iff] at hz

theorem pushedBack (h : Held mode text c u p f) (b : Bool) :
    Held mode text { c with pushedBack := b } u p f :=
  ⟨⟨h.mode_eq, h.text_eq, h.expander, h.error_eq, h.shows⟩, h.coherent.pushedBack b, h.stock_eq,
    h.pending_eq⟩

/-- Unread input at hand may be taken. -/
theorem bump (h : Held mode text c u p f) {k : Nat} (hk : k ≤ c.get.available) :
    Held mode text { c with get := c.get.bump k } (u.drop k) p f := by
  refine ⟨⟨h.mode_eq, h.text_eq, h.expander, h.error_eq, h.shows⟩, h.coherent.bump k, ?_,
    h.pending_eq⟩
  rw [stock_bump h.coherent hk, h.stock_eq]

theorem advance (h : Held mode text c u p f) {k : Nat} (hk : k ≤ c.get.available) :
    Held mode text (c.advance k) (u.drop k) p f := (h.bump hk).pushedBack false

/-! ## Sending -/

theorem writeDirect (h : Held mode text c u p f) (hw : mode.isWritable = true) {src : Bytes}
    (hsrc : src ≠ []) (hlen : mode.append = true → f.bytes.length ≤ top σ) :
    ∃ c', c.writeDirect src = (src.length, c') ∧ SameRegions c c' ∧
      Held mode text c' u p (f.sent mode text src) := by
  obtain ⟨d, hd, hs⟩ := h.shows
  obtain ⟨t', d', hr, ht, hd'⟩ := send_shows hs mode c.expander hsrc hlen
  have he : c.expander.isSome = text := by rw [h.expander, hw, Bool.and_true]
  have hsame := sameRegions_writeDirect c src
  have hwrite : c.writeDirect src =
      (src.length, { c with device := some d', expander := t' }.latch none) := by
    simp only [Buffered.writeDirect, hd, h.mode_eq, hr]
  rw [hwrite] at hsame ⊢
  rw [he] at hd'
  refine ⟨_, rfl, hsame, ⟨h.mode_eq, h.text_eq, ht.trans h.expander, ?_, d', rfl, hd'⟩,
    h.coherent.congr hsame, hsame.stock.trans h.stock_eq, hsame.pending.trans h.pending_eq⟩
  simp only [latch, h.error_eq]
  rfl

theorem writePending (h : Held mode text c u p f) (hp : p ≠ [])
    (hlen : mode.append = true → f.bytes.length ≤ top σ) :
    ∃ c', c.writePending = (true, c') ∧ SameRegions c c' ∧
      Held mode text c' u p (f.sent mode text p) := by
  obtain ⟨c', hr, hsame, hc'⟩ := h.writeDirect (h.isWritable hp) hp hlen
  refine ⟨c', ?_, hsame, hc'⟩
  unfold Buffered.writePending
  rw [if_pos h.isOpen, h.pending_eq, hr, h.consumed]
  simp

/-! ## Giving back -/

theorem yieldInput (h : Held mode text c u p f) (hback : Rewinds σ text u f) :
    Held mode text c.yieldInput [] p (f.rewound text u) := by
  obtain ⟨d, hd, hs⟩ := h.shows
  have hc := h.coherent.yieldInput.1.coherent
  by_cases hu : u = []
  · subst hu
    have hz : ¬ 0 < c.unreadCount := by
      rw [h.unreadCount]
      exact Nat.lt_irrefl 0
    rw [f.rewound_nil]
    by_cases hr : c.mode.isReadable = true
    · have hy : c.yieldInput = { c with filled := 0, get := .empty, onCell := false } := by
        simp only [Buffered.yieldInput, if_pos hr, discardInput, hd, if_neg hz]
      rw [hy] at hc ⊢
      exact ⟨⟨h.mode_eq, h.text_eq, h.expander, h.error_eq, d, hd, hs⟩, hc, rfl, h.pending_eq⟩
    · have hy : c.yieldInput = c := if_neg hr
      rw [hy]
      exact h
  · obtain ⟨hpos, htop⟩ := hback hu
    have hr : c.mode.isReadable = true := by
      by_cases hr : c.mode.isReadable = true
      · exact hr
      · exact absurd (h.eq_nil_of_not_isReadable (by simpa [h.mode_eq] using hr)) hu
    have hz : 0 < c.unreadCount := by
      rw [h.unreadCount]
      exact List.length_pos_iff.2 hu
    have hspan : c.unreadSpan = (encoded text u).length := by
      rw [unreadSpan_eq h.coherent, h.text_eq, h.stock_eq]
    obtain ⟨d', hseek, hd'⟩ := seek_back_shows hs hpos (Nat.le_trans (Nat.sub_le _ _) htop)
    have hy : c.yieldInput = { Buffered.latch { c with device := some d' } none with
        filled := 0
        get := .empty
        onCell := false } := by
      simp only [Buffered.yieldInput, if_pos hr, discardInput, hd, if_pos hz, hspan, hseek]
      rfl
    rw [hy] at hc ⊢
    refine ⟨⟨h.mode_eq, h.text_eq, h.expander, ?_, d', rfl, hd'⟩, hc, rfl, h.pending_eq⟩
    simp only [latch, h.error_eq]
    rfl

theorem sync (h : Held mode text c u p f) (hback : Rewinds σ text u f)
    (hlen : mode.append = true → f.bytes.length ≤ top σ) :
    ∃ c', c.sync = (true, c') ∧ Held mode text c' [] [] ((f.sent mode text p).rewound text u) := by
  rw [sync_eq]
  by_cases hp : p = []
  · have hz : ¬ 0 < c.put.consumed := by
      rw [h.consumed, hp]
      exact Nat.lt_irrefl 0
    have hy := h.yieldInput hback
    rw [if_neg hz, hp]
    rw [hp] at hy
    exact ⟨c.yieldInput, rfl, hy⟩
  · have hu : u = [] := by
      by_cases hu : u = []
      · exact hu
      · exact absurd (h.pending_eq_nil hu) hp
    have hz : 0 < c.put.consumed := by
      rw [h.consumed]
      exact List.length_pos_iff.2 hp
    obtain ⟨c', hw, _, hc'⟩ := h.writePending hp hlen
    rw [if_pos hz, hw, hu, File.rewound_nil]
    refine ⟨c'.reset, rfl,
      ⟨hc'.mode_eq, hc'.text_eq, hc'.expander, hc'.error_eq, hc'.shows⟩,
      coherent_reset hc'.coherent.closed, rfl, pending_reset c'⟩

end Held

/-- A healthy channel with `u` unread, where the file is `g` with all that waits. -/
def Stands (mode : OpenMode) (text : Bool) (c : Buffered σ) (u : Bytes) (g : File) : Prop :=
  ∃ p f, Held mode text c u p f ∧ f.sent mode text p = g

namespace Stands

theorem intro (h : Held mode text c u p f) : Stands mode text c u (f.sent mode text p) :=
  ⟨p, f, h, rfl⟩

theorem of_held (h : Held mode text c u [] g) : Stands mode text c u g := ⟨[], g, h, g.sent_nil⟩

theorem coherent (h : Stands mode text c u g) : Coherent c := by
  obtain ⟨p, f, hc, _⟩ := h
  exact hc.coherent

theorem isOpen (h : Stands mode text c u g) : c.isOpen = true := by
  obtain ⟨p, f, hc, _⟩ := h
  exact hc.isOpen

theorem canRead (h : Stands mode text c u g) : c.canRead = mode.isReadable := by
  obtain ⟨p, f, hc, _⟩ := h
  exact hc.canRead

theorem canWrite (h : Stands mode text c u g) : c.canWrite = mode.isWritable := by
  obtain ⟨p, f, hc, _⟩ := h
  exact hc.canWrite

theorem unreadCount (h : Stands mode text c u g) : c.unreadCount = u.length := by
  obtain ⟨p, f, hc, _⟩ := h
  exact hc.unreadCount

theorem stock_eq (h : Stands mode text c u g) : c.stock = u := by
  obtain ⟨p, f, hc, _⟩ := h
  exact hc.stock_eq

theorem error_eq (h : Stands mode text c u g) : c.error = none := by
  obtain ⟨p, f, hc, _⟩ := h
  exact hc.error_eq

theorem pushedBack (h : Stands mode text c u g) (b : Bool) :
    Stands mode text { c with pushedBack := b } u g := by
  obtain ⟨p, f, hc, hg⟩ := h
  exact ⟨p, f, hc.pushedBack b, hg⟩

theorem advance (h : Stands mode text c u g) {k : Nat} (hk : k ≤ c.get.available) :
    Stands mode text (c.advance k) (u.drop k) g := by
  obtain ⟨p, f, hc, hg⟩ := h
  exact ⟨p, f, hc.advance hk, hg⟩

theorem eq_nil_of_not_isReadable (h : Stands mode text c u g) (hr : mode.isReadable = false) :
    u = [] := by
  obtain ⟨p, f, hc, _⟩ := h
  exact hc.eq_nil_of_not_isReadable hr

/-- Where something is unread nothing waits. -/
theorem held_of_ne_nil (h : Stands mode text c u g) (hu : u ≠ []) : Held mode text c u [] g := by
  obtain ⟨p, f, hc, rfl⟩ := h
  have hp := hc.pending_eq_nil hu
  subst hp
  rwa [f.sent_nil]

/-- Without a buffer nothing can wait. -/
theorem held_of_buffer_eq_nil (h : Stands mode text c u g) (hb : c.buffer = []) :
    Held mode text c u [] g := by
  obtain ⟨p, f, hc, rfl⟩ := h
  have hp := hc.pending_of_collapsed (hc.coherent.isCollapsed_of_nil hb)
  subst hp
  rwa [f.sent_nil]

theorem yieldInput (h : Stands mode text c u g) (hback : Rewinds σ text u g) :
    Stands mode text c.yieldInput [] (g.rewound text u) := by
  by_cases hu : u = []
  · subst hu
    obtain ⟨p, f, hc, rfl⟩ := h
    have hy := hc.yieldInput fun hn => absurd rfl hn
    rw [f.rewound_nil] at hy
    rw [File.rewound_nil]
    exact intro hy
  · exact of_held ((h.held_of_ne_nil hu).yieldInput hback)

theorem sync (h : Stands mode text c u g) (hback : Rewinds σ text u g)
    (hlen : mode.append = true → g.bytes.length ≤ top σ) :
    ∃ c', c.sync = (true, c') ∧ Held mode text c' [] [] (g.rewound text u) := by
  by_cases hu : u = []
  · subst hu
    obtain ⟨p, f, hc, rfl⟩ := h
    exact hc.sync (fun hn => absurd rfl hn) fun ha => Nat.le_trans (f.length_le_sent p) (hlen ha)
  · exact (h.held_of_ne_nil hu).sync hback hlen

end Stands

end Buffered

end ByteChannel
