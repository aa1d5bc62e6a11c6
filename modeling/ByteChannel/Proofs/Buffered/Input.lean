import ByteChannel.Proofs.Buffered.Held

/-!
# Input through a healthy channel

What a channel delivers is the next stretch of the input to come: first what is unread in the buffer
or the cell, then what the device shows. Nothing is lost or delivered twice on the way.
-/

namespace ByteChannel.Buffered

open Reliable Text

variable {σ : Type} [Device σ] [Reliable σ] {c : Buffered σ} {mode : OpenMode} {text : Bool}
  {u u' p : Bytes} {f g g' : File}

/-! ## Where input comes from -/

theorem Healthy.refill (h : Healthy mode text c f) (hr : mode.isReadable = true)
    (hp : c.put = .empty) (hc : c.onCell = false) (hlen : text = true → f.bytes.length ≤ top σ) :
    ∃ bs f', Taken text [] f bs [] f' ∧ (bs = [] → c.buffer = [] ∨ f.rest = []) ∧
      (text = false → bs = f.rest.take c.buffer.length) ∧
      c.refill.filled = bs.length ∧ c.refill.buffer.take bs.length = bs ∧
      ∀ k, Held mode text { c.refill with get := .clamped 0 k c.refill.filled } (bs.drop k) []
        f' := by
  obtain ⟨d, hd, hs⟩ := h.shows
  obtain ⟨bs, d', f', hrec, hd', ht, he, hb⟩ := receive_shows hs text c.buffer.length hlen
  have hin := inward_refill h.isOpen (by rw [h.mode_eq, hr]) hp hc
  have htake : (overwrite c.buffer 0 bs).take bs.length = bs := by
    rw [overwrite_zero, List.take_left]
  have href : c.refill = { c with
      device := some d'
      buffer := overwrite c.buffer 0 bs
      filled := bs.length }.latch none := by
    simp only [Buffered.refill, hd, h.text_eq, hrec]
  rw [href] at hin ⊢
  refine ⟨bs, f', ht, ?_, hb, rfl, ?_, ?_⟩
  · intro hn
    exact (he hn).imp_left List.length_eq_zero_iff.1
  · exact htake
  · intro k
    refine ⟨⟨h.mode_eq, h.text_eq, h.expander, ?_, d', rfl, hd'⟩, (hin k).coherent, ?_, ?_⟩
    · simp only [latch, h.error_eq]
      rfl
    · rw [stock_of_clamped rfl (hin k).filled_le hc, latch, htake]
    · exact pending_of_put_empty hp

theorem Held.readDirect (h : Held mode text c u p f) (n : Nat)
    (hlen : text = true → f.bytes.length ≤ top σ) :
    ∃ bs c' f', c.readDirect n = (bs, c') ∧ SameRegions c c' ∧ Held mode text c' u p f' ∧
      Taken text [] f bs [] f' ∧ (bs = [] → n = 0 ∨ f.rest = []) ∧
      (text = false → bs = f.rest.take n) := by
  obtain ⟨d, hd, hs⟩ := h.shows
  obtain ⟨bs, d', f', hrec, hd', ht, he, hb⟩ := receive_shows hs text n hlen
  have hsame := sameRegions_readDirect c n
  have hread : c.readDirect n = (bs, { c with device := some d' }.latch none) := by
    simp only [Buffered.readDirect, hd, h.text_eq, hrec]
  rw [hread] at hsame ⊢
  refine ⟨bs, _, f', rfl, hsame, ?_, ht, he, hb⟩
  refine ⟨⟨h.mode_eq, h.text_eq, h.expander, ?_, d', rfl, hd'⟩, h.coherent.congr hsame,
    hsame.stock.trans h.stock_eq, hsame.pending.trans h.pending_eq⟩
  simp only [latch, h.error_eq]
  rfl

theorem Held.turnToInput (h : Held mode text c u p f) (hr : mode.isReadable = true)
    (hlen : mode.append = true → f.bytes.length ≤ top σ) :
    Held mode text c.turnToInput u [] (f.sent mode text p) ∧ Inward c.turnToInput ∧
      SameRegions c { c.turnToInput with put := c.put } := by
  have hin := h.coherent.turnToInput h.isOpen (by rw [h.mode_eq, hr])
  by_cases hp : p = []
  · subst hp
    have hz : ¬ 0 < c.put.consumed := by
      rw [h.consumed]
      exact Nat.lt_irrefl 0
    have ht : c.turnToInput = { c with put := .empty } := by
      rw [Buffered.turnToInput, if_neg hz]
    rw [ht] at hin ⊢
    rw [File.sent_nil]
    refine ⟨⟨⟨h.mode_eq, h.text_eq, h.expander, h.error_eq, h.shows⟩, hin.coherent, h.stock_eq,
      pending_of_put_empty rfl⟩, hin, ?_⟩
    constructor <;> rfl
  · have hz : 0 < c.put.consumed := by
      rw [h.consumed]
      exact List.length_pos_iff.2 hp
    obtain ⟨c', hw, hsame, hc'⟩ := h.writePending hp hlen
    have ht : c.turnToInput = { c' with put := .empty } := by
      rw [Buffered.turnToInput, if_pos hz, hw]
    rw [ht] at hin ⊢
    refine ⟨⟨⟨hc'.mode_eq, hc'.text_eq, hc'.expander, hc'.error_eq, hc'.shows⟩, hin.coherent,
      hc'.stock_eq, pending_of_put_empty rfl⟩, hin, ?_⟩
    obtain ⟨ho, hm, ht, hb, hg, _, hf, hcell, hbyte, hback⟩ := hsame
    exact ⟨ho, hm, ht, hb, hg, rfl, hf, hcell, hbyte, hback⟩

/-! ## Reading -/

omit [Device σ] [Reliable σ] in
theorem Coherent.stock_takeCell (h : Coherent c) :
    c.stock = c.takeCell.1 ++ c.takeCell.2.stock ∧ c.takeCell.1.length ≤ 1 := by
  unfold Buffered.takeCell
  by_cases hc : c.onCell = true
  · have hstock : Buffered.stock { c with get := .clamped 0 0 c.filled, onCell := false } =
        c.buffer.take c.filled :=
      stock_of_clamped (c := { c with get := .clamped 0 0 c.filled, onCell := false }) rfl
        h.filled_le rfl
    rw [if_pos hc, stock, if_pos hc]
    by_cases ha : 0 < c.get.available
    · rw [if_pos ha, ahead_of_cell h hc ha]
      exact ⟨congrArg ([c.cell] ++ ·) hstock.symm, Nat.le_refl 1⟩
    · rw [if_neg ha, (ahead_eq_nil_iff h).2 (by omega)]
      exact ⟨hstock.symm, Nat.zero_le 1⟩
  · rw [if_neg hc]
    exact ⟨rfl, Nat.zero_le 1⟩

omit [Device σ] [Reliable σ] in
theorem Coherent.stock_takeAhead (h : Coherent c) (hc : c.onCell = false) (n : Nat) :
    (c.takeAhead n).1 = c.stock.take n ∧ (c.takeAhead n).2.stock = c.stock.drop n := by
  have hl : c.stock.length = c.get.available := by rw [stock_of_not_onCell hc, length_ahead h]
  have hdrop : c.stock.drop (min n c.get.available) = c.stock.drop n := by
    by_cases hn : n ≤ c.get.available
    · rw [Nat.min_eq_left hn]
    · have hle : c.get.available ≤ n := Nat.le_of_not_le hn
      rw [Nat.min_eq_right hle, List.drop_eq_nil_of_le (Nat.le_of_eq hl),
        List.drop_eq_nil_of_le (hl ▸ hle)]
  refine ⟨?_, ?_⟩
  · rw [stock_of_not_onCell hc, ahead, if_neg (by simp [hc]), Buffered.takeAhead, slice, slice,
      List.take_take, Nat.add_sub_cancel_left]
    rfl
  · rw [← hdrop, ← stock_bump h (Nat.min_le_right _ _)]
    rfl

theorem Held.takeCell (h : Held mode text c u [] f) (hin : Inward c) :
    Held mode text c.takeCell.2 c.takeCell.2.stock [] f := by
  have hi := hin.takeCell.1.coherent
  unfold Buffered.takeCell at hi ⊢
  by_cases hc : c.onCell = true
  · rw [if_pos hc] at hi ⊢
    exact ⟨⟨h.mode_eq, h.text_eq, h.expander, h.error_eq, h.shows⟩, hi, rfl, h.pending_eq⟩
  · rw [if_neg hc]
    exact ⟨h.toHealthy, h.coherent, rfl, h.pending_eq⟩

omit [Device σ] [Reliable σ] in
/-- The cell and the buffer together deliver what is unread. -/
theorem Inward.takeStock (h : Inward c) {n : Nat} (hn : n ≠ 0) :
    let held := c.takeCell
    let ahead := held.2.takeAhead (n - held.1.length)
    held.1 ++ ahead.1 = c.stock.take n ∧ ahead.2.stock = c.stock.drop n ∧ Inward ahead.2 ∧
      ahead.2.onCell = false := by
  intro held ahead
  obtain ⟨hstock, hle⟩ := h.coherent.stock_takeCell
  obtain ⟨hin, hcell⟩ := h.takeCell
  obtain ⟨htake, hdrop⟩ := hin.coherent.stock_takeAhead hcell (n - held.1.length)
  have hle' : held.1.length ≤ n := Nat.le_trans hle (Nat.one_le_iff_ne_zero.2 hn)
  refine ⟨?_, ?_, hin.bump _, hcell⟩
  · rw [hstock, List.take_append, List.take_of_length_le hle', ← htake]
  · rw [hstock, List.drop_append, List.drop_eq_nil_of_le hle']
    exact hdrop

theorem Held.takeStock (h : Held mode text c u [] f) (hin : Inward c) {n : Nat} (hn : n ≠ 0) :
    let held := c.takeCell
    let ahead := held.2.takeAhead (n - held.1.length)
    held.1 ++ ahead.1 = u.take n ∧ Held mode text ahead.2 (u.drop n) [] f ∧ Inward ahead.2 ∧
      ahead.2.onCell = false := by
  intro held ahead
  obtain ⟨htake, hdrop, hin', hcell⟩ := hin.takeStock hn
  have hheld := h.takeCell hin
  rw [h.stock_eq] at htake hdrop
  exact ⟨htake, ⟨⟨hheld.mode_eq, hheld.text_eq, hheld.expander, hheld.error_eq, hheld.shows⟩,
    hin'.coherent, hdrop, hheld.pending_eq⟩, hin', hcell⟩

theorem Held.takeFresh (h : Held mode text c u [] f) (hin : Inward c) (hc : c.onCell = false)
    {n : Nat} (hn : n ≠ 0 → u = []) (hlen : text = true → f.bytes.length ≤ top σ) :
    ∃ bs c' u' f', c.takeFresh n = (bs, c') ∧ Held mode text c' u' [] f' ∧
      Taken text u f bs u' f' ∧ (bs = [] → n = 0 ∨ f.rest = []) ∧
      (text = false → bs = f.rest.take n) := by
  unfold Buffered.takeFresh
  by_cases hz : n = 0
  · subst hz
    rw [if_pos rfl]
    exact ⟨[], c, u, f, rfl, h, .stay f rfl, fun _ => .inl rfl, fun _ => rfl⟩
  rw [if_neg hz]
  have hu := hn hz
  subst hu
  by_cases hl : n < c.buffer.length
  · have hr : mode.isReadable = true := by
      rw [← h.mode_eq]
      exact hin.readable
    obtain ⟨bs, f', ht, he, hb, hfilled, htake, hheld⟩ := h.refill hr hin.put hc hlen
    have hbuf : c.refill.buffer.take (min n c.refill.filled) = bs.take n := by
      rw [hfilled, ← List.take_take, htake]
    have hdrop : bs.take n ++ bs.drop (min n c.refill.filled) = bs := by
      rw [hfilled, List.take_eq_take_min, List.take_append_drop]
    rw [if_pos hl]
    refine ⟨bs.take n, _, _, f', by rw [← hbuf], hheld _, (hdrop.symm ▸ ht).split, ?_, ?_⟩
    · intro hnone
      have hb' : bs = [] := (List.take_eq_nil_iff.1 hnone).resolve_left hz
      refine .inr ((he hb').resolve_left ?_)
      intro hbuffer
      rw [hbuffer] at hl
      exact Nat.not_lt_zero n hl
    · intro ht
      rw [hb ht, List.take_take, Nat.min_eq_left (Nat.le_of_lt hl)]
  · obtain ⟨bs, c', f', hr, hsame, hc', ht, he, hb⟩ := h.readDirect n hlen
    have hi := hin.congr hsame
    have hcoh : Coherent { c' with get := .empty, filled := 0 } :=
      Inward.coherent ⟨hi.isOpen, hi.readable, hi.put, rfl, fun _ => rfl, fun _ => Nat.zero_le 1,
        Nat.zero_le _⟩
    rw [if_neg hl, hr]
    refine ⟨bs, _, [], f', rfl, ⟨⟨hc'.mode_eq, hc'.text_eq, hc'.expander, hc'.error_eq, hc'.shows⟩,
      hcoh, ?_, hc'.pending_eq⟩, ht, he, hb⟩
    rw [stock_eq_nil_iff hcoh]
    simp [Buffered.unreadCount]

/-- Whether a file is short enough for what input may ask of its device. -/
def Reads (σ : Type) [Device σ] [Reliable σ] (mode : OpenMode) (text : Bool) (g : File) : Prop :=
  text = true ∨ mode.append = true → g.bytes.length ≤ top σ

theorem Reads.of_bytes (ha : mode.append = false) : Reads σ mode false g := by
  rintro (ht | ht)
  · cases ht
  · rw [ha] at ht
    cases ht

open Stands

theorem Stands.turnToInput (h : Stands mode text c u g) (hr : mode.isReadable = true)
    (hlen : Reads σ mode text g) :
    Held mode text c.turnToInput u [] g ∧ Inward c.turnToInput ∧
      SameRegions c { c.turnToInput with put := c.put } := by
  obtain ⟨p, f, hc, rfl⟩ := h
  apply hc.turnToInput hr
  intro ha
  exact Nat.le_trans (f.length_le_sent p) (hlen (.inr ha))

/-- A read delivers what is to come, in full if it comes as it is. -/
theorem Stands.read (h : Stands mode text c u g) (hr : mode.isReadable = true) (n : Nat)
    (hlen : Reads σ mode text g) :
    ∃ bs c' u' g', c.read n = (bs, c') ∧ Stands mode text c' u' g' ∧ Taken text u g bs u' g' ∧
      (bs = [] → n = 0 ∨ g.coming text u = []) ∧
      (text = false → bs = (g.coming text u).take n) := by
  by_cases hn : n = 0
  · subst hn
    refine ⟨[], c, u, g, if_pos (.inl rfl), h, .stay g rfl, fun _ => .inl rfl, fun _ => rfl⟩
  have hcr : ¬ (n = 0 ∨ c.canRead = false) := by simp [hn, h.canRead, hr]
  obtain ⟨h₁, hin₁, _⟩ := (h.pushedBack false).turnToInput hr hlen
  obtain ⟨htake, h₂, hin₂, hcell⟩ := h₁.takeStock hin₁ hn
  let held := (Buffered.turnToInput { c with pushedBack := false }).takeCell
  let ahead := held.2.takeAhead (n - held.1.length)
  let fresh := ahead.2.takeFresh (n - held.1.length - ahead.1.length)
  have hread : c.read n = (held.1 ++ ahead.1 ++ fresh.1, fresh.2) := if_neg hcr
  have hleft : n - held.1.length - ahead.1.length = n - u.length := by
    have hl : (held.1 ++ ahead.1).length = (u.take n).length := congrArg List.length htake
    rw [List.length_append, List.length_take] at hl
    omega
  have hdrop : n - u.length ≠ 0 → u.drop n = [] := fun hm => List.drop_eq_nil_of_le (by omega)
  obtain ⟨bs, c', u', g', hfresh, h₃, ht, he, hb⟩ :=
    h₂.takeFresh hin₂ hcell hdrop fun ht => hlen (.inl ht)
  rw [← hleft] at hfresh
  rw [hread, show held.1 ++ ahead.1 = _ from htake, show fresh = _ from hfresh]
  refine ⟨u.take n ++ bs, c', u', g', rfl, of_held h₃, ?_, ?_, ?_⟩
  · exact (Taken.stay g (List.take_append_drop n u).symm).trans ht
  · intro hnil
    obtain ⟨hu, hbs⟩ := List.append_eq_nil_iff.1 hnil
    have hu' := (List.take_eq_nil_iff.1 hu).resolve_left hn
    refine .inr ((g.coming_eq_nil_iff text u).2 ⟨hu', (he hbs).resolve_left ?_⟩)
    rw [hu']
    exact hn
  · intro htext
    rw [hb htext, htext, File.coming, decoded_false, List.take_append]

omit [Device σ] [Reliable σ] in
/-- The cell is empty, and the parked bytes come up. -/
theorem Coherent.stock_unpark (h : Coherent c) (hc : c.onCell = true) (ha : c.get.available = 0) :
    stock { c with onCell := false, get := .clamped 0 0 c.filled } = c.stock := by
  rw [stock_of_clamped (c := { c with onCell := false, get := .clamped 0 0 c.filled }) (k := 0) rfl
    h.filled_le rfl, stock, (ahead_eq_nil_iff h).2 ha, if_pos hc]
  rfl

theorem Held.unpark (h : Held mode text c u [] g) (hc : c.onCell = true)
    (ha : c.get.available = 0)
    (hcoh : Coherent { c with onCell := false, get := .clamped 0 0 c.filled }) :
    Held mode text { c with onCell := false, get := .clamped 0 0 c.filled } u [] g :=
  ⟨⟨h.mode_eq, h.text_eq, h.expander, h.error_eq, h.shows⟩, hcoh,
    (h.coherent.stock_unpark hc ha).trans h.stock_eq, h.pending_eq⟩

omit [Device σ] [Reliable σ] in
theorem stock_toCell (hb : c.buffer = []) {bs : Bytes} (hl : bs.length ≤ 1) :
    stock { c with
      cell := bs.headD 0
      onCell := true
      get := .clamped 0 0 bs.length } = bs := by
  rw [stock, ahead, if_pos rfl, if_pos rfl]
  simp only [hb, List.take_nil, List.append_nil]
  cases bs with
  | nil => rfl
  | cons b rest =>
    cases rest with
    | nil => rfl
    | cons b' rest =>
      simp only [List.length_cons] at hl
      omega

theorem Held.toCell (h : Held mode text c [] [] g) (hb : c.buffer = []) {bs : Bytes}
    (hl : bs.length ≤ 1)
    (hcoh : Coherent { c with
      cell := bs.headD 0
      onCell := true
      get := .clamped 0 0 bs.length }) :
    Held mode text { c with
      cell := bs.headD 0
      onCell := true
      get := .clamped 0 0 bs.length } bs [] g :=
  ⟨⟨h.mode_eq, h.text_eq, h.expander, h.error_eq, h.shows⟩, hcoh, stock_toCell hb hl,
    h.pending_eq⟩

/-- A peek shows the first byte to come, and leaves it at hand. -/
def Peeks (mode : OpenMode) (text : Bool) (c : Buffered σ) (u : Bytes) (g : File) : Prop :=
  ∃ c' u' g', c.peek = (u'.head?, c') ∧ Stands mode text c' u' g' ∧ Taken text u g [] u' g' ∧
    (u' = [] → g'.rest = []) ∧ (u' ≠ [] → 0 < c'.get.available)

theorem Stands.peek_of_available (h : Stands mode text c u g) (hr : mode.isReadable = true)
    (ha : 0 < c.get.available) : Peeks mode text c u g := by
  have hcr : ¬ c.canRead = false := by simp [h.canRead, hr]
  have hpeek : c.peek = (some c.current, c) := by
    rw [Buffered.peek, if_neg hcr, if_pos ha]
  have hhead := head?_stock h.coherent ha
  rw [h.stock_eq] at hhead
  refine ⟨c, u, g, by rw [hpeek, hhead], h, .stay g rfl, ?_, fun _ => ha⟩
  intro hu
  rw [hu] at hhead
  cases hhead

theorem Stands.peek_of_parked (h : Stands mode text c u g) (hr : mode.isReadable = true)
    (ha : ¬ 0 < c.get.available) (hparked : c.onCell = true ∧ 0 < c.filled) :
    Peeks mode text c u g := by
  have hcr : ¬ c.canRead = false := by simp [h.canRead, hr]
  let c' := { c with onCell := false, get := .clamped 0 0 c.filled }
  have hpeek : c.peek = (some (c.buffer.getD 0 0), c') := by
    rw [Buffered.peek, if_neg hcr, if_neg ha, if_pos hparked]
  have hcoh : Coherent c' := by
    have hp := h.coherent.peek
    rwa [hpeek] at hp
  have havail : 0 < c'.get.available := by
    rw [Region.available_clamped]
    exact hparked.2
  have hu : u ≠ [] := by
    rintro rfl
    have hn := h.unreadCount
    rw [Buffered.unreadCount, if_pos hparked.1] at hn
    simp only [List.length_nil] at hn
    omega
  have hheld := (h.held_of_ne_nil hu).unpark hparked.1 (Nat.eq_zero_of_not_pos ha) hcoh
  have hhead := head?_stock hcoh havail
  rw [hheld.stock_eq] at hhead
  exact ⟨c', u, g, by rw [hpeek, hhead]; rfl, of_held hheld, .stay g rfl,
    fun hn => absurd hn hu, fun _ => havail⟩

omit [Device σ] [Reliable σ] in
theorem Coherent.stock_eq_nil (h : Coherent c) (ha : ¬ 0 < c.get.available)
    (hparked : ¬ (c.onCell = true ∧ 0 < c.filled)) : c.stock = [] := by
  rw [stock_eq_nil_iff h, Buffered.unreadCount, Nat.eq_zero_of_not_pos ha]
  by_cases hc : c.onCell = true
  · rw [if_pos hc]
    have := not_and.1 hparked hc
    omega
  · rw [if_neg hc]

theorem Stands.eq_nil_of_not_parked (h : Stands mode text c u g) (ha : ¬ 0 < c.get.available)
    (hparked : ¬ (c.onCell = true ∧ 0 < c.filled)) : u = [] :=
  h.stock_eq.symm.trans (h.coherent.stock_eq_nil ha hparked)

/-- Without a buffer the byte comes from the device into the cell. -/
theorem Stands.peek_of_unbuffered (h : Stands mode text c [] g) (hr : mode.isReadable = true)
    (hlen : Reads σ mode text g) (ha : ¬ 0 < c.get.available)
    (hparked : ¬ (c.onCell = true ∧ 0 < c.filled)) (hb : c.buffer = []) :
    Peeks mode text c [] g := by
  have hcr : ¬ c.canRead = false := by simp [h.canRead, hr]
  have hf : c.filled = 0 := by
    have := h.coherent.filled_le
    rw [hb] at this
    exact Nat.le_zero.1 this
  have hc : { c with filled := 0 } = c := by rw [← hf]
  obtain ⟨bs, c₁, g', hread, hsame, hheld, ht, he, _⟩ :=
    (h.held_of_buffer_eq_nil hb).readDirect 1 fun ht => hlen (.inl ht)
  let c' := { c₁ with
    cell := bs.headD 0
    onCell := true
    get := .clamped 0 0 bs.length }
  have hpeek : c.peek = (bs.head?, c') := by
    rw [Buffered.peek, if_neg hcr, if_neg ha, if_neg hparked, if_pos hb, hc, hread]
  have hcoh : Coherent c' := by
    have hp := h.coherent.peek
    rwa [hpeek] at hp
  have hl : bs.length ≤ 1 := by
    have := length_readDirect_le c 1
    rwa [hread] at this
  refine ⟨c', bs, g', hpeek, of_held (hheld.toCell (hsame.buffer.trans hb) hl hcoh), ht.split,
    ?_, ?_⟩
  · intro hbs
    exact ht.rest_eq_nil ((he hbs).resolve_left Nat.one_ne_zero)
  · intro hbs
    rw [Region.available_clamped]
    exact List.length_pos_iff.2 hbs

/-- With a buffer that has nothing left it is filled from the device. -/
theorem Stands.peek_of_refill (h : Stands mode text c [] g) (hr : mode.isReadable = true)
    (hlen : Reads σ mode text g) (ha : ¬ 0 < c.get.available)
    (hparked : ¬ (c.onCell = true ∧ 0 < c.filled)) (hb : c.buffer ≠ []) :
    Peeks mode text c [] g := by
  have hcr : ¬ c.canRead = false := by simp [h.canRead, hr]
  obtain ⟨hturn, hin, hsame⟩ := h.turnToInput hr hlen
  let c₁ := { c.turnToInput with onCell := false }
  have hc₁ : Healthy mode text c₁ g :=
    ⟨hturn.mode_eq, hturn.text_eq, hturn.expander, hturn.error_eq, hturn.shows⟩
  have hbuf : c₁.buffer ≠ [] := hsame.buffer.symm ▸ hb
  obtain ⟨bs, g', ht, he, _, hfilled, _, hheld⟩ :=
    hc₁.refill hr hin.put rfl fun ht => hlen (.inl ht)
  let c' := { c₁.refill with get := .clamped 0 0 c₁.refill.filled }
  have hpeek : c.peek = (if 0 < c'.filled then some (c'.buffer.getD 0 0) else none, c') := by
    rw [Buffered.peek, if_neg hcr, if_neg ha, if_neg hparked, if_neg hb]
  have hc' : Held mode text c' bs [] g' := hheld 0
  have havail : c'.get.available = bs.length := by
    rw [Region.available_clamped, hfilled]
    rfl
  refine ⟨c', bs, g', ?_, of_held hc', ht.split, ?_, ?_⟩
  · rw [hpeek]
    by_cases hbs : 0 < bs.length
    · have hhead := head?_stock hc'.coherent (havail ▸ hbs)
      have hcurrent : c'.current = c'.buffer.getD 0 0 := by
        have hcell : c'.onCell = false := (refills_refill c₁).onCell
        rw [current, if_neg (by simp [hcell]), Region.next_clamped, Nat.zero_min]
      rw [hc'.stock_eq, hcurrent] at hhead
      rw [hhead, if_pos (Nat.lt_of_lt_of_eq hbs hfilled.symm)]
    · have hnil : bs = [] := List.eq_nil_of_length_eq_zero (Nat.eq_zero_of_not_pos hbs)
      have hz : ¬ 0 < c'.filled := fun hn => hbs (Nat.lt_of_lt_of_eq hn hfilled)
      rw [if_neg hz, hnil]
      rfl
  · intro hbs
    exact ht.rest_eq_nil ((he hbs).resolve_left hbuf)
  · intro hbs
    rw [havail]
    exact List.length_pos_iff.2 hbs

theorem Stands.peek (h : Stands mode text c u g) (hr : mode.isReadable = true)
    (hlen : Reads σ mode text g) : Peeks mode text c u g := by
  by_cases ha : 0 < c.get.available
  · exact h.peek_of_available hr ha
  by_cases hparked : c.onCell = true ∧ 0 < c.filled
  · exact h.peek_of_parked hr ha hparked
  obtain rfl := h.eq_nil_of_not_parked ha hparked
  by_cases hb : c.buffer = []
  · exact h.peek_of_unbuffered hr hlen ha hparked hb
  · exact h.peek_of_refill hr hlen ha hparked hb

theorem Stands.readByte (h : Stands mode text c u g) (hr : mode.isReadable = true)
    (hlen : Reads σ mode text g) :
    ∃ c' u' g', c.readByte = ((g.coming text u).head?, c') ∧ Stands mode text c' u' g' ∧
      Taken text u g (g.coming text u).head?.toList u' g' := by
  obtain ⟨c', u', g', hpeek, hc', ht, he, ha⟩ := h.peek hr hlen
  rw [← ht.head?_coming he, Buffered.readByte, hpeek]
  cases hu : u' with
  | nil =>
    subst hu
    exact ⟨c', [], g', rfl, hc', ht⟩
  | cons b bs =>
    subst hu
    have hone : 1 ≤ c'.get.available := ha (List.cons_ne_nil b bs)
    exact ⟨c'.advance 1, bs, g', rfl, hc'.advance hone, ht.trans (.stay g' rfl)⟩

/-- What is shown comes next, and something is shown unless nothing is to come. -/
theorem Stands.peekChunk (h : Stands mode text c u g) (hr : mode.isReadable = true)
    (hlen : Reads σ mode text g) :
    ∃ c' u' g', c.peekChunk = (.ok c'.ahead, c') ∧ Stands mode text c' u' g' ∧
      Taken text u g [] u' g' ∧ (c'.ahead = [] → g.coming text u = []) := by
  unfold Buffered.peekChunk
  by_cases ha : c.get.available = 0
  · obtain ⟨c', u', g', hpeek, hc', ht, he, hpos⟩ := h.peek hr hlen
    have hhead := ht.head?_coming he
    rw [if_pos ha, hpeek]
    cases hu : u' with
    | nil =>
      subst hu
      have hahead : c'.ahead = [] := List.prefix_nil.1 (hc'.stock_eq ▸ ahead_prefix_stock c')
      have herror : c'.error = none := hc'.error_eq
      refine ⟨c', [], g', by simp [hahead, herror], hc', ht, fun _ => ?_⟩
      exact List.head?_eq_none_iff.1 hhead.symm
    | cons b bs =>
      subst hu
      refine ⟨c', b :: bs, g', rfl, hc', ht, ?_⟩
      intro hn
      rw [ahead_eq_nil_iff hc'.coherent] at hn
      have := hpos (List.cons_ne_nil b bs)
      omega
  · rw [if_neg ha]
    refine ⟨c, u, g, rfl, h, .stay g rfl, ?_⟩
    intro hn
    exact absurd ((ahead_eq_nil_iff h.coherent).1 hn) ha

/-- Without input there is nothing to show. -/
theorem Stands.fill_refused (h : Stands mode text c u g) (hr : mode.isReadable = false) (n : Nat) :
    c.fill n = (.ok [], c.advance 0) := by
  have hcr : c.canRead = false := by rw [h.canRead, hr]
  have hz : c.get.available = 0 := by
    have hn := h.unreadCount
    rw [h.eq_nil_of_not_isReadable hr, Buffered.unreadCount] at hn
    exact (Nat.add_eq_zero_iff.1 hn).1
  simp [Buffered.fill, Buffered.peekChunk, Buffered.peek, hz, hcr, h.error_eq]

theorem Stands.fill (h : Stands mode text c u g) (hr : mode.isReadable = true) (n : Nat)
    (hlen : Reads σ mode text g) :
    ∃ shown c' u' g', c.fill n = (.ok shown, c') ∧ Stands mode text c' u' g' ∧
      shown <+: g.coming text u ∧ (shown = [] → g.coming text u = []) ∧
      Taken text u g (shown.take n) u' g' := by
  obtain ⟨c', u', g', hpeek, hc', ht, he⟩ := h.peekChunk hr hlen
  have hk : min n c'.ahead.length ≤ c'.get.available := by
    rw [length_ahead hc'.coherent]
    exact Nat.min_le_right _ _
  refine ⟨c'.ahead, _, _, g', ?_, hc'.advance hk, ?_, he, ?_⟩
  · rw [Buffered.fill, hpeek]
  · obtain ⟨k, _, _, hcoming, _⟩ := ht
    rw [hcoming, ← hc'.stock_eq]
    exact (ahead_prefix_stock c').trans (List.prefix_append _ _)
  · have htake : u'.take (min n c'.ahead.length) = c'.ahead.take n := by
      rw [← hc'.stock_eq, stock, List.take_append_of_le_length (Nat.min_le_right _ _),
        ← List.take_eq_take_min]
    apply ht.trans
    rw [← htake]
    exact .stay g' (List.take_append_drop _ u').symm

end ByteChannel.Buffered
