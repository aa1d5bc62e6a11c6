import Mathlib
import ByteChannel.Proofs.Buffered.Input
import ByteChannel.Proofs.Buffered.Output
import ByteChannel.Proofs.Buffered.Reference
import ByteChannel.Proofs.Buffered.Session

/-!
# A buffer under bytes is invisible

A channel that neither appends nor translates mirrors a file: the file is what its device would show
after a sync. Each call answers as the file does and leaves the channel mirroring what the call
makes of the file, so that no sequence of calls tells the channel from the file.
-/

namespace ByteChannel.Buffered

open Reliable Text

variable {σ : Type} [Device σ] [Reliable σ] {c c' : Buffered σ} {mode : OpenMode} {u u' bs : Bytes}
  {f g g' : File}

/-- The channel stands at `f`, and what is unread is what comes next in it. -/
def Mirrors (mode : OpenMode) (c : Buffered σ) (f : File) : Prop :=
  ∃ u g, Stands mode false c u g ∧ g.rewound false u = f ∧ f.rest = g.coming false u

namespace Mirrors

theorem of_stands (h : Stands mode false c [] f) : Mirrors mode c f :=
  ⟨[], f, h, f.rewound_nil false, rfl⟩

/-- Unread input lies inside the file, right before the position of the device. -/
theorem rewinds (hg : g.rewound false u = f) (hcoming : f.rest = g.coming false u)
    (hlen : f.bytes.length ≤ top σ) : Rewinds σ false u g := by
  intro hu
  subst hg
  have hpos := List.length_pos_iff.2 hu
  have hl := congrArg List.length hcoming
  rw [File.coming, List.length_append, decoded_false, File.length_rest, File.length_rest] at hl
  simp only [File.rewound, encoded_false, File.bytes_back, File.pos_back] at hl hlen ⊢
  omega

/-- Taking input moves the position over it. -/
theorem take (hg : g.rewound false u = f) (hcoming : f.rest = g.coming false u)
    (hc' : Stands mode false c' u' g') (ht : Taken false u g bs u' g') :
    Mirrors mode c' (f.advance bs.length) := by
  obtain ⟨k, hk, rfl, htaken, _⟩ := ht
  refine ⟨u', g.advance k, hc', ?_, ?_⟩
  · subst hg
    have hl := congrArg List.length htaken
    have hl' := congrArg List.length hcoming
    simp only [File.coming, List.length_append, decoded_false, File.length_rest, File.rewound,
      encoded_false, File.bytes_back, File.pos_back, File.bytes_advance, File.pos_advance]
      at hk hl hl'
    simp only [File.rewound, encoded_false, File.back, File.advance, File.mk.injEq, true_and]
    omega
  · rw [File.rest_advance, hcoming, htaken, List.drop_left]

/-! ## Input -/

theorem read (h : Mirrors mode c f) (happend : mode.append = false) (n : Nat) :
    (c.read n).1 = (f.input mode).take n ∧
      Mirrors mode (c.read n).2 (f.advance ((f.input mode).take n).length) := by
  obtain ⟨u, g, hst, hg, hcoming⟩ := h
  unfold File.input
  by_cases hr : mode.isReadable = true
  · obtain ⟨bs, c', u', g', hread, hc', ht, _, hfull⟩ := hst.read hr n (.of_bytes happend)
    rw [if_pos hr, hread, hcoming, ← hfull rfl]
    exact ⟨rfl, take hg hcoming hc' ht⟩
  · have hcr : n = 0 ∨ c.canRead = false := .inr (by simpa [hst.canRead] using hr)
    rw [if_neg hr, Buffered.read, if_pos hcr, List.take_nil]
    exact ⟨rfl, u, g, hst, hg, hcoming⟩

theorem peek (h : Mirrors mode c f) (happend : mode.append = false) :
    c.peek.1 = (f.input mode).head? ∧ Mirrors mode c.peek.2 f := by
  obtain ⟨u, g, hst, hg, hcoming⟩ := h
  unfold File.input
  by_cases hr : mode.isReadable = true
  · obtain ⟨c', u', g', hpeek, hc', ht, he, _⟩ := hst.peek hr (.of_bytes happend)
    rw [if_pos hr, hpeek, hcoming]
    exact ⟨ht.head?_coming he, take hg hcoming hc' ht⟩
  · have hcr : c.canRead = false := by simpa [hst.canRead] using hr
    rw [if_neg hr, Buffered.peek, if_pos hcr]
    exact ⟨rfl, u, g, hst, hg, hcoming⟩

theorem readByte (h : Mirrors mode c f) (happend : mode.append = false) :
    c.readByte.1 = (f.input mode).head? ∧
      Mirrors mode c.readByte.2 (f.advance ((f.input mode).take 1).length) := by
  obtain ⟨u, g, hst, hg, hcoming⟩ := h
  unfold File.input
  by_cases hr : mode.isReadable = true
  · obtain ⟨c', u', g', hread, hc', ht⟩ := hst.readByte hr (.of_bytes happend)
    have htake : (g.coming false u).head?.toList = (g.coming false u).take 1 := by
      cases g.coming false u <;> rfl
    rw [if_pos hr, hread, hcoming, ← htake]
    exact ⟨rfl, take hg hcoming hc' ht⟩
  · have hcr : c.canRead = false := by simpa [hst.canRead] using hr
    rw [if_neg hr, Buffered.readByte, Buffered.peek, if_pos hcr]
    exact ⟨rfl, u, g, hst, hg, hcoming⟩

theorem fill (h : Mirrors mode c f) (happend : mode.append = false) (n : Nat) :
    ∃ bs, (c.fill n).1 = .ok bs ∧ bs <+: f.input mode ∧ (bs = [] → f.input mode = []) ∧
      Mirrors mode (c.fill n).2 (f.advance (bs.take n).length) := by
  obtain ⟨u, g, hst, hg, hcoming⟩ := h
  unfold File.input
  by_cases hr : mode.isReadable = true
  · obtain ⟨bs, c', u', g', hfill, hc', hp, he, ht⟩ := hst.fill hr n (.of_bytes happend)
    rw [if_pos hr, hfill, hcoming]
    exact ⟨bs, rfl, hp, he, take hg hcoming hc' ht⟩
  · rw [if_neg hr, hst.fill_refused (by simpa using hr)]
    refine ⟨[], rfl, List.prefix_rfl, fun _ => rfl, ?_⟩
    rw [List.take_nil]
    exact ⟨u, g, hst.advance (Nat.zero_le _), hg, hcoming⟩

/-! ## Output -/

/-- Output of any kind, seen from the channel and from the file. -/
theorem accept {src : Bytes} (happend : mode.append = false) (hw : mode.isWritable = true)
    (hg : g.rewound false u = f)
    (h : Stands mode false c [] ((g.rewound false u).sent mode false src)) :
    Mirrors mode c (f.output mode src) := by
  rw [hg, f.sent_of_not_append src happend] at h
  rw [File.output, if_pos hw]
  exact of_stands h

theorem write (h : Mirrors mode c f) (happend : mode.append = false)
    (hlen : f.bytes.length ≤ top σ) (src : Bytes) :
    (c.write src).1 = (if mode.isWritable then src.length else 0) ∧
      Mirrors mode (c.write src).2 (f.output mode src) := by
  obtain ⟨u, g, hst, hg, hcoming⟩ := h
  by_cases hw : mode.isWritable = true
  · obtain ⟨c', hwrite, hc'⟩ :=
      hst.write hw src (rewinds hg hcoming hlen) (by simp [happend])
    rw [hwrite, if_pos hw]
    exact ⟨rfl, accept happend hw hg hc'⟩
  · have hcw : c.canWrite = false := by simpa [hst.canWrite] using hw
    rw [Buffered.write, if_pos hcw, if_neg hw, File.output, if_neg hw]
    exact ⟨rfl, u, g, hst, hg, hcoming⟩

theorem overflow (h : Mirrors mode c f) (happend : mode.append = false)
    (hlen : f.bytes.length ≤ top σ) (b : UInt8) :
    (c.overflow b).1 = mode.isWritable ∧ Mirrors mode (c.overflow b).2 (f.output mode [b]) := by
  obtain ⟨u, g, hst, hg, hcoming⟩ := h
  by_cases hw : mode.isWritable = true
  · obtain ⟨c', hover, hc'⟩ :=
      hst.overflow hw b (rewinds hg hcoming hlen) (by simp [happend])
    rw [hover, hw]
    exact ⟨rfl, accept happend hw hg hc'⟩
  · have hcw : c.canWrite = false := by simpa [hst.canWrite] using hw
    rw [Buffered.overflow, if_pos hcw, File.output, if_neg hw]
    exact ⟨by simpa using hw, u, g, hst, hg, hcoming⟩

theorem writeByte (h : Mirrors mode c f) (happend : mode.append = false)
    (hlen : f.bytes.length ≤ top σ) (b : UInt8) :
    (c.writeByte b).1 = mode.isWritable ∧ Mirrors mode (c.writeByte b).2 (f.output mode [b]) := by
  by_cases hw : mode.isWritable = true
  · obtain ⟨u, g, hst, hg, hcoming⟩ := h
    obtain ⟨c', hput, hc'⟩ :=
      hst.writeByte hw b (rewinds hg hcoming hlen) (by simp [happend])
    rw [hput, hw]
    exact ⟨rfl, accept happend hw hg hc'⟩
  · have hcw : ¬ (0 < c.put.available ∧ c.canWrite = true) := by
      obtain ⟨u, g, hst, _, _⟩ := h
      rw [hst.canWrite]
      exact fun hc => hw hc.2
    rw [Buffered.writeByte, if_neg hcw]
    exact h.overflow happend hlen b

/-! ## Sessions -/

theorem flush (h : Mirrors mode c f) (happend : mode.append = false)
    (hlen : f.bytes.length ≤ top σ) :
    ∃ c', c.flush = (.ok (), c') ∧ Held mode false c' [] [] f := by
  obtain ⟨u, g, hst, hg, hcoming⟩ := h
  have hflush := hst.flush (rewinds hg hcoming hlen) (by simp [happend])
  rwa [hg] at hflush

theorem seek (h : Mirrors mode c f) (happend : mode.append = false)
    (hlen : f.bytes.length ≤ top σ) (o : Origin) :
    (match f.seek? (top σ) o with
      | some pos => (c.seek o).1 = .ok pos
      | none => ∃ e, (c.seek o).1 = .error (.io e)) ∧
      Mirrors mode (c.seek o).2 { f with pos := (f.seek? (top σ) o).getD f.pos } := by
  obtain ⟨u, g, hst, hg, hcoming⟩ := h
  have hseek := hst.seek (rewinds hg hcoming hlen) (by simp [happend]) o
  subst hg
  unfold File.seek?
  rw [File.bytes_rewound]
  cases ht : o.targetWithin? (g.rewound false u).pos g.bytes.length (top σ) with
  | some pos =>
    rw [ht] at hseek
    obtain ⟨c', hmove, hc'⟩ := hseek
    rw [hmove]
    exact ⟨rfl, of_stands (.of_held hc')⟩
  | none =>
    rw [ht] at hseek
    obtain ⟨e, c', hmove, hc'⟩ := hseek
    rw [hmove]
    exact ⟨⟨e, rfl⟩, of_stands (.of_held hc')⟩

theorem installBuffer (h : Mirrors mode c f) (happend : mode.append = false) (buffer : Bytes) :
    ((c.installBuffer buffer).1 = .ok () ∨
      (c.installBuffer buffer).1 = .error .bufferHoldsInput) ∧
      Mirrors mode (c.installBuffer buffer).2 f := by
  obtain ⟨u, g, hst, hg, hcoming⟩ := h
  by_cases hu : u = []
  · subst hu
    obtain ⟨c', hr, hc'⟩ := hst.installBuffer buffer (by simp [happend])
    rw [g.rewound_nil] at hg
    subst hg
    rw [hr]
    exact ⟨.inl rfl, of_stands (.of_held hc')⟩
  · have hn : c.unreadCount ≠ 0 := by
      rw [hst.unreadCount]
      exact fun hz => hu (List.length_eq_zero_iff.1 hz)
    rw [Buffered.installBuffer, if_pos hn]
    exact ⟨.inr rfl, u, g, hst, hg, hcoming⟩

/-! ## Runs -/

/-- One call on the channel is the same call on the file. -/
theorem perform (h : Mirrors mode c f) (happend : mode.append = false)
    (hlen : f.bytes.length ≤ top σ) (call : Call) (hcall : ∀ b, call ≠ .unread b) :
    f.Answers mode (top σ) call (c.perform call).1 ∧
      Mirrors mode (c.perform call).2 (f.after mode (top σ) call (c.perform call).1) := by
  cases call with
  | read n => exact h.read happend n
  | readByte => exact h.readByte happend
  | peek => exact h.peek happend
  | fill n =>
    obtain ⟨bs, hr, hp, he, hm⟩ := h.fill happend n
    refine ⟨⟨bs, hr, hp, he⟩, ?_⟩
    change Mirrors mode (c.fill n).2 (f.after mode (top σ) (.fill n) (.shown (c.fill n).1))
    rw [hr]
    exact hm
  | unread b => exact absurd rfl (hcall b)
  | write src => exact h.write happend hlen src
  | writeByte b => exact h.writeByte happend hlen b
  | overflow b => exact h.overflow happend hlen b
  | flush =>
    obtain ⟨c', hr, hc'⟩ := h.flush happend hlen
    change c.flush.1 = .ok () ∧ Mirrors mode c.flush.2 f
    rw [hr]
    exact ⟨rfl, of_stands (.of_held hc')⟩
  | seek o => exact h.seek happend hlen o
  | tell =>
    obtain ⟨hr, hm⟩ := h.seek happend hlen (.current 0)
    rw [f.getD_seek?_here] at hm
    exact ⟨hr, hm⟩
  | install buffer => exact h.installBuffer happend buffer
  | resize n => exact h.installBuffer happend _

theorem performAll (h : Mirrors mode c f) (happend : mode.append = false) (calls : List Call)
    (hcalls : ∀ b, .unread b ∉ calls)
    (hlen : (f.afterAll mode (top σ) calls (c.performAll calls).1).bytes.length ≤ top σ) :
    f.AnswersAll mode (top σ) calls (c.performAll calls).1 ∧
      Mirrors mode (c.performAll calls).2
        (f.afterAll mode (top σ) calls (c.performAll calls).1) := by
  induction calls generalizing c f with
  | nil => exact ⟨trivial, h⟩
  | cons call calls ih =>
    have hcall (b : UInt8) : call ≠ .unread b := by
      rintro rfl
      exact hcalls b List.mem_cons_self
    have hf : f.bytes.length ≤ top σ :=
      Nat.le_trans (f.length_le_afterAll mode (top σ) (call :: calls) _) hlen
    obtain ⟨ha, hm⟩ := h.perform happend hf call hcall
    obtain ⟨hall, hmall⟩ := ih hm (fun b hb => hcalls b (List.mem_cons_of_mem call hb)) hlen
    exact ⟨⟨ha, hall⟩, hmall⟩

end Mirrors

/-- A channel without translation that does not append answers every sequence of calls as the file
does that its device shows, and flushing it leaves the device showing what the calls make of the
file, whatever the buffer and however the device cuts its transfers. -/
theorem binary_answers_as_file {c : Buffered σ} {d : σ} {f : File} {mode : OpenMode}
    (hclosed : c.isOpen = false) (hs : Shows d f) (hlen : f.bytes.length ≤ top σ)
    (happend : mode.append = false)
    (hbinary : mode.binary = true ∨ c.settings.textPolicy.translates = false)
    (calls : List Call) (hcalls : ∀ b, .unread b ∉ calls) :
    ∃ c', c.attach d mode = .ok c' ∧
      let run := c'.performAll calls
      let g := (f.opened mode).afterAll mode (top σ) calls run.1
      g.bytes.length ≤ top σ →
        (f.opened mode).AnswersAll mode (top σ) calls run.1 ∧
          run.2.flush.1 = .ok () ∧ ∃ d', run.2.flush.2.device = some d' ∧ Shows d' g := by
  obtain ⟨c', hattach, hc'⟩ := attach_held hclosed hs mode fun _ => hlen
  have htext : (!mode.binary && c.settings.textPolicy.translates) = false := by
    rcases hbinary with hb | hb <;> simp [hb]
  rw [htext] at hc'
  refine ⟨c', hattach, ?_⟩
  intro run g hg
  have hm : Mirrors mode c' (f.opened mode) := .of_stands (.of_held hc')
  obtain ⟨hall, hmall⟩ := hm.performAll happend calls hcalls hg
  obtain ⟨c'', hflush, hc''⟩ := hmall.flush happend hg
  rw [hflush]
  exact ⟨hall, rfl, hc''.shows⟩

/-- Three bytes of buffer over a device that reads two bytes at a time, writes one and is
interrupted at every third transfer. -/
theorem binary_answers_as_file_cut :
    let d : Faulty :=
      { cursor := .ofBytes [1, 2, 3, 4, 5] 0
        readChunk := some 2
        writeChunk := some 1
        interruptPeriod := 3 }
    let mode : OpenMode := { read := true, write := true, binary := true }
    let calls : List Call :=
      [.read 1, .fill 1, .writeByte 9, .peek, .seek (.finish (-1)), .readByte]
    ∃ c', (withSettings { bufferSize := 3 }).attach d mode = .ok c' ∧
      (c'.performAll calls).1 = [.bytes [1], .shown (.ok [2, 3]), .flag true, .byte (some 4),
        .position (.ok 4), .byte (some 5)] ∧
      ∃ d', (c'.performAll calls).2.flush.2.device = some d' ∧ Shows d' ⟨[1, 2, 9, 4, 5], 5⟩ := by
  intro d mode calls
  have hs : Shows d ⟨[1, 2, 3, 4, 5], 0⟩ := ⟨⟨by decide, by decide, rfl, rfl, rfl, rfl⟩, by cbv⟩
  have happend : mode.append = false := rfl
  have hbinary : mode.binary = true := rfl
  have hcalls : ∀ b, .unread b ∉ calls := by simp [calls]
  obtain ⟨c', hattach, h⟩ := binary_answers_as_file (c := withSettings { bufferSize := 3 }) rfl hs
    (by decide) happend (.inl hbinary) calls hcalls
  cases (hattach.symm.trans rfl : Except.ok c' = _)
  obtain ⟨_, _, d', hd', hshows⟩ := h (by cbv)
  refine ⟨_, hattach, by cbv, d', hd', cast (congrArg (Shows d') ?_) hshows⟩
  cbv

end ByteChannel.Buffered
