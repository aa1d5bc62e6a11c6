import ByteChannel.Proofs.Buffered.Held

/-!
# Output through a healthy channel

Every output operation takes all it is given. What it took is what waits and what the device shows
together, whichever of the paths through the buffer it went.
-/

namespace ByteChannel.Buffered

open Reliable Text

variable {σ : Type} [Device σ] [Reliable σ] {c : Buffered σ} {mode : OpenMode} {text : Bool}
  {u p : Bytes} {f g : File}

namespace Held

theorem openPut (h : Held mode text c [] p f) (hw : mode.isWritable = true) :
    Held mode text c.openPut [] p f := by
  have hu : c.unreadCount = 0 := h.unreadCount
  have hc := h.coherent.openPut (by rw [h.mode_eq, hw]) hu
  have hp := (pending_openPut h.coherent).trans h.pending_eq
  rw [openPut_spec] at hc hp ⊢
  exact ⟨⟨h.mode_eq, h.text_eq, h.expander, h.error_eq, h.shows⟩, hc, h.stock_eq, hp⟩

theorem place (h : Held mode text c [] p f) {bs : Bytes} (hb : bs.length ≤ c.put.available) :
    Held mode text (c.place bs) [] (p ++ bs) f := by
  have hc := h.coherent.place hb
  have hu : (c.place bs).unreadCount = 0 := h.unreadCount
  exact ⟨⟨h.mode_eq, h.text_eq, h.expander, h.error_eq, h.shows⟩, hc, (stock_eq_nil_iff hc).2 hu,
    (pending_place h.coherent hb).trans (h.pending_eq ▸ rfl)⟩

end Held

namespace Stands

theorem openPut (h : Stands mode text c [] g) (hw : mode.isWritable = true) :
    Stands mode text c.openPut [] g := by
  obtain ⟨p, f, hc, hg⟩ := h
  exact ⟨p, f, hc.openPut hw, hg⟩

theorem place (h : Stands mode text c [] g) {bs : Bytes} (hb : bs.length ≤ c.put.available) :
    Stands mode text (c.place bs) [] (g.sent mode text bs) := by
  obtain ⟨p, f, hc, rfl⟩ := h
  rw [File.sent_append]
  exact intro (hc.place hb)

/-- A byte that finds no room goes into an empty buffer, or past it if there is none. -/
theorem overflow (h : Stands mode text c u g) (hw : mode.isWritable = true) (b : UInt8)
    (hback : Rewinds σ text u g) (hlen : mode.append = true → g.bytes.length ≤ top σ) :
    ∃ c', c.overflow b = (true, c') ∧
      Stands mode text c' [] ((g.rewound text u).sent mode text [b]) := by
  have hcw : ¬ c.canWrite = false := by simp [h.canWrite, hw]
  unfold Buffered.overflow
  rw [if_neg hcw]
  by_cases hbuf : c.buffer = []
  · have hy := (h.held_of_buffer_eq_nil hbuf).yieldInput hback
    obtain ⟨c', hr, _, hc'⟩ := hy.writeDirect hw (List.cons_ne_nil b []) hlen
    refine ⟨c', ?_, of_held hc'⟩
    rw [if_pos hbuf]
    change ((c.yieldInput.writeDirect [b]).1 == 1, (c.yieldInput.writeDirect [b]).2) = _
    rw [hr]
    rfl
  · obtain ⟨c', hr, hc'⟩ := h.sync hback hlen
    obtain ⟨hs, hz⟩ := h.coherent.sync
    rw [hr] at hs hz
    have hroom : [b].length ≤ c'.openPut.put.available := by
      rw [hs.coherent.put_openPut hz, wholeBuffer, Region.available_clamped, hs.buffer]
      exact List.length_pos_iff.2 hbuf
    refine ⟨c'.openPut.place [b], ?_, ((of_held hc').openPut hw).place hroom⟩
    rw [if_neg hbuf, h.coherent.sync_openPut, hr]
    rfl

theorem writeByte (h : Stands mode text c u g) (hw : mode.isWritable = true) (b : UInt8)
    (hback : Rewinds σ text u g) (hlen : mode.append = true → g.bytes.length ≤ top σ) :
    ∃ c', c.writeByte b = (true, c') ∧
      Stands mode text c' [] ((g.rewound text u).sent mode text [b]) := by
  unfold Buffered.writeByte
  by_cases ha : 0 < c.put.available ∧ c.canWrite = true
  · have hu : u = [] := by
      have hz := h.coherent.exclusive (Region.isCollapsed_of_available ha.1)
      rwa [h.unreadCount, List.length_eq_zero_iff] at hz
    subst hu
    have hb : [b].length ≤ c.put.available := ha.1
    rw [if_pos ha, g.rewound_nil]
    exact ⟨_, rfl, (h.place hb).pushedBack false⟩
  · rw [if_neg ha]
    exact h.overflow hw b hback hlen

/-- A piece goes in by stretches that fit, with an overflow between them. -/
theorem store (h : Stands mode text c [] g) (hw : mode.isWritable = true) (src : Bytes)
    (hlen : mode.append = true → (g.sent mode text src).bytes.length ≤ top σ) :
    ∃ c', c.store src = (src.length, c') ∧ Stands mode text c' [] (g.sent mode text src) := by
  have hnil (f : File) : Rewinds σ text [] f := fun hn => absurd rfl hn
  fun_induction Buffered.store c src generalizing g with
  | case1 c => exact ⟨c, rfl, by rwa [File.sent_nil]⟩
  | case2 c b bs ha k more =>
    rename_i ih
    have hle : k ≤ (b :: bs).length := Nat.min_le_right _ _
    have hk : ((b :: bs).take k).length = k := List.length_take_of_le hle
    have hsent : (g.sent mode text ((b :: bs).take k)).sent mode text ((b :: bs).drop k) =
        g.sent mode text (b :: bs) := by
      rw [File.sent_append, List.take_append_drop]
    have hplace := h.place (Nat.le_trans (Nat.le_of_eq hk) (Nat.min_le_left _ _))
    obtain ⟨c', hr, hc'⟩ := ih hplace (by rwa [hsent])
    have hsum : k + ((b :: bs).drop k).length = (b :: bs).length := by
      rw [List.length_drop]
      omega
    rw [hsent] at hc'
    exact ⟨c', by rw [show more = _ from hr, hsum], hc'⟩
  | case3 c b bs ha r hr more =>
    rename_i ih
    have hsent : (g.sent mode text [b]).sent mode text bs = g.sent mode text (b :: bs) :=
      g.sent_append [b] bs
    have hg (ha : mode.append = true) : g.bytes.length ≤ top σ :=
      Nat.le_trans (g.length_le_sent _) (hlen ha)
    obtain ⟨c₁, hr₁, hc₁⟩ := h.overflow hw b (hnil g) hg
    have hsnd : r.2 = c₁ := congrArg Prod.snd hr₁
    rw [g.rewound_nil] at hc₁
    rw [← hsent] at hlen ⊢
    obtain ⟨c', hr', hc'⟩ := ih (hsnd ▸ hc₁) hlen
    exact ⟨c', by rw [show more = _ from hr']; rfl, hc'⟩
  | case4 c b bs ha r =>
    rename_i hr
    have hg (ha : mode.append = true) : g.bytes.length ≤ top σ :=
      Nat.le_trans (g.length_le_sent _) (hlen ha)
    obtain ⟨c₁, hr₁, _⟩ := h.overflow hw b (hnil g) hg
    exact absurd (congrArg Prod.fst hr₁) hr

/-- All that is given is taken, by way of the buffer or past it. -/
theorem write (h : Stands mode text c u g) (hw : mode.isWritable = true) (src : Bytes)
    (hback : Rewinds σ text u g)
    (hlen : mode.append = true → ((g.rewound text u).sent mode text src).bytes.length ≤ top σ) :
    ∃ c', c.write src = (src.length, c') ∧
      Stands mode text c' [] ((g.rewound text u).sent mode text src) := by
  have hcw : ¬ c.canWrite = false := by simp [h.canWrite, hw]
  have hp := h.pushedBack false
  have hg (ha : mode.append = true) : g.bytes.length ≤ top σ :=
    Nat.le_trans ((g.rewound text u).length_le_sent src) (hlen ha)
  unfold Buffered.write
  rw [if_neg hcw]
  by_cases hl : c.buffer.length < src.length
  · have hsrc : src ≠ [] := by
      rintro rfl
      exact Nat.not_lt_zero _ hl
    obtain ⟨c₁, hr, hc₁⟩ := hp.sync hback hg
    obtain ⟨c₂, hr₂, _, hc₂⟩ := hc₁.writeDirect hw hsrc hg
    refine ⟨c₂, ?_, of_held hc₂⟩
    simp only [if_pos hl, hr, if_pos, hr₂]
  · have hy := hp.yieldInput hback
    rw [if_neg hl]
    change ∃ c', Buffered.store (if ({ c with pushedBack := false }.yieldInput).buffer = []
      then { c with pushedBack := false }.yieldInput
      else { c with pushedBack := false }.yieldInput.openPut) src = (src.length, c') ∧ _
    by_cases hb : ({ c with pushedBack := false }.yieldInput).buffer = []
    · rw [if_pos hb]
      exact hy.store hw src hlen
    · rw [if_neg hb]
      exact (hy.openPut hw).store hw src hlen

end Stands

end ByteChannel.Buffered
