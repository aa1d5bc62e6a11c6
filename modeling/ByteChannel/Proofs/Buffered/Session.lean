import ByteChannel.Proofs.Buffered.Held

/-!
# Sessions over reliable devices

Opening, flushing, seeking, changing the buffer and closing succeed over a device that never fails,
except that a seek is refused where the device has no such place, and a change of buffer while input
is unread.
-/

namespace ByteChannel

open Reliable Text

/-- The file as a channel finds it that has just been opened. -/
def File.opened (f : File) (mode : OpenMode) : File := if mode.startsAtEnd then f.atEnd else f

namespace Buffered

variable {σ : Type} [Device σ] [Reliable σ] {c : Buffered σ} {mode : OpenMode} {text : Bool}
  {u : Bytes} {f g : File} {d : σ}

theorem attach_held (hc : c.isOpen = false) (hs : Shows d f) (mode : OpenMode)
    (hlen : mode.startsAtEnd = true → f.bytes.length ≤ top σ) :
    ∃ c', c.attach d mode = .ok c' ∧
      Held mode (!mode.binary && c.settings.textPolicy.translates) c' [] [] (f.opened mode) := by
  obtain ⟨pos, d₁, hm, hd₁⟩ : ∃ pos d₁, (if mode.startsAtEnd then Device.seek d (.finish 0)
      else (.ok 0, d)) = (.ok pos, d₁) ∧ Shows d₁ (f.opened mode) := by
    unfold File.opened
    by_cases ha : mode.startsAtEnd = true
    · obtain ⟨d₁, hm, hd₁⟩ := seek_end_shows hs (hlen ha)
      rw [if_pos ha, if_pos ha]
      exact ⟨_, d₁, hm, hd₁⟩
    · rw [if_neg ha, if_neg ha]
      exact ⟨0, d, rfl, hs⟩
  have hopen : ¬ c.isOpen = true := by simp [hc]
  unfold attach
  rw [if_neg hopen]
  simp only [hm]
  refine ⟨_, rfl, ⟨rfl, rfl, ?_, rfl, d₁, rfl, hd₁⟩, coherent_reset fun hn => ?_, rfl,
    pending_reset _⟩
  · cases !mode.binary && c.settings.textPolicy.translates && mode.isWritable <;> simp [reset]
  · cases hn

namespace Stands

theorem flush (h : Stands mode text c u g) (hback : Rewinds σ text u g)
    (hlen : mode.append = true → g.bytes.length ≤ top σ) :
    ∃ c', c.flush = (.ok (), c') ∧ Held mode text c' [] [] (g.rewound text u) := by
  obtain ⟨c', hr, hc'⟩ := h.sync hback hlen
  have hopen : ¬ c.isOpen = false := by simp [h.isOpen]
  refine ⟨c', ?_, hc'⟩
  rw [Buffered.flush, if_neg hopen, hr]
  rfl

theorem seek (h : Stands mode text c u g) (hback : Rewinds σ text u g)
    (hlen : mode.append = true → g.bytes.length ≤ top σ) (o : Origin) :
    match o.targetWithin? (g.rewound text u).pos g.bytes.length (top σ) with
    | some pos => ∃ c', c.seek o = (.ok pos, c') ∧ Held mode text c' [] [] { g with pos := pos }
    | none => ∃ e c', c.seek o = (.error (.io e), c') ∧
        Held mode text c' [] [] (g.rewound text u) := by
  obtain ⟨c', hr, hc'⟩ := (h.pushedBack false).sync hback hlen
  obtain ⟨d, hd, hs⟩ := hc'.shows
  have hopen : ¬ c.isOpen = false := by simp [h.isOpen]
  have hmoved {d' : σ} {f' : File} (hd' : Shows d' f') :
      Held mode text { c' with device := some d' } [] [] f' := by
    refine ⟨⟨hc'.mode_eq, hc'.text_eq, hc'.expander, hc'.error_eq, d', rfl, hd'⟩,
      hc'.coherent.congr ?_, hc'.stock_eq, hc'.pending_eq⟩
    constructor <;> simp [Buffered.isOpen, hd]
  have hseek := seek_shows hs o
  unfold Buffered.seek
  rw [if_neg hopen]
  simp only [hr, if_pos, hd]
  rw [File.bytes_rewound] at hseek
  split
  · next pos ht =>
    rw [ht] at hseek
    obtain ⟨d', hmove, hd'⟩ := hseek
    rw [hmove]
    exact ⟨_, rfl, hmoved hd'⟩
  · next ht =>
    rw [ht] at hseek
    obtain ⟨e, d', hmove, hd'⟩ := hseek
    rw [hmove]
    exact ⟨e, _, rfl, hmoved hd'⟩

theorem installBuffer (h : Stands mode text c [] g) (buffer : Bytes)
    (hlen : mode.append = true → g.bytes.length ≤ top σ) :
    ∃ c', c.installBuffer buffer = (.ok (), c') ∧ Held mode text c' [] [] g := by
  have hz : ¬ c.unreadCount ≠ 0 := by simp [h.unreadCount]
  obtain ⟨c', hr, hc'⟩ := h.sync (fun hn => absurd rfl hn) hlen
  rw [g.rewound_nil] at hc'
  refine ⟨{ c' with buffer := buffer, adopted := true }.reset, ?_,
    ⟨hc'.mode_eq, hc'.text_eq, hc'.expander, hc'.error_eq, hc'.shows⟩,
    coherent_reset (c := { c' with buffer := buffer, adopted := true }) hc'.coherent.closed, rfl,
    pending_reset _⟩
  rw [Buffered.installBuffer, if_neg hz, if_pos h.isOpen, hr]
  rfl

/-- Closing sends what waits and gives the device back. -/
theorem close (h : Stands mode text c u g) (hback : Rewinds σ text u g)
    (hlen : mode.append = true → g.bytes.length ≤ top σ) :
    c.close.1 = .ok () ∧ ∃ d, c.close.2.2 = some d ∧ Shows d (g.rewound text u) := by
  obtain ⟨c', hr, hc'⟩ := h.flush hback hlen
  obtain ⟨d, hd, hs⟩ := hc'.shows
  obtain ⟨hok, hd'⟩ := Reliable.close_ok hs
  have hopen : ¬ c.isOpen = false := by simp [h.isOpen]
  rw [Buffered.close, if_neg hopen, hr]
  simp only [hd, hok]
  exact ⟨rfl, _, rfl, hd'⟩

end Stands

end Buffered

end ByteChannel
