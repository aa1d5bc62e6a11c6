import ByteChannel.Proofs.Buffered.Streams

/-!
# Input goes on behind a latched failure

A failure that was latched before stays latched and changes no input, except that a caller who asks
for what is at hand is told of it once, where nothing is to come. Apart from that answer a channel
with a failure latched delivers the stream that it would deliver without.
-/

namespace ByteChannel

namespace Answer

/-- An answer that tells of a failure shows nothing. -/
def quiet : Answer → Answer
  | shown (.error _) => shown (.ok [])
  | a => a

end Answer

theorem Call.Delivers.quiet {stream : Bytes} {call : Call} {a : Answer}
    (h : call.Delivers stream a) : a.quiet = a := by
  cases call with
  | fill n =>
    cases a with
    | shown r =>
      obtain ⟨bs, rfl, -⟩ := h
      rfl
    | _ => cases h
  | _ => cases a <;> first | rfl | cases h

/-- Nothing is taken by an answer that tells of a failure. -/
theorem Call.taken_quiet (call : Call) (a : Answer) : call.taken a.quiet = call.taken a := by
  cases a with
  | shown r =>
    cases r with
    | ok bs => rfl
    | error e =>
      cases call with
      | fill n => exact List.take_nil
      | _ => rfl
  | _ => rfl

namespace Buffered

variable {σ : Type} {c c' : Buffered σ}

/-- The channel with a failure latched, and none that comes after it. -/
def failing (c : Buffered σ) (e : IoError) : Buffered σ := { c with error := some e }

theorem clearError_eq (h : c.error = none) : { c with error := none } = c := by rw [← h]

/-- Without the failure the channel is as it was before. -/
theorem eq_failing {e : IoError} (h : c.error = some e) :
    c = Buffered.failing { c with error := none } e := by rw [failing, ← h]

@[simp] theorem device_failing (c : Buffered σ) (e : IoError) :
    (c.failing e).device = c.device := rfl

theorem takeCell_failing (c : Buffered σ) (e : IoError) :
    (c.failing e).takeCell = (c.takeCell.1, c.takeCell.2.failing e) := by
  have hcell : (c.failing e).onCell = c.onCell := rfl
  unfold Buffered.takeCell
  rw [hcell]
  cases c.onCell <;> rfl

variable [Device σ]

theorem refill_failing (c : Buffered σ) (e : IoError) :
    (c.failing e).refill = c.refill.failing e := by
  unfold Buffered.refill
  rw [device_failing]
  cases c.device <;> rfl

theorem readDirect_failing (c : Buffered σ) (e : IoError) (n : Nat) :
    (c.failing e).readDirect n = ((c.readDirect n).1, (c.readDirect n).2.failing e) := by
  unfold Buffered.readDirect
  rw [device_failing]
  cases c.device <;> rfl

theorem writeDirect_failing (c : Buffered σ) (e : IoError) (src : Bytes) :
    (c.failing e).writeDirect src = ((c.writeDirect src).1, (c.writeDirect src).2.failing e) := by
  unfold Buffered.writeDirect
  rw [device_failing]
  cases c.device <;> rfl

theorem writePending_failing (c : Buffered σ) (e : IoError) :
    (c.failing e).writePending = (c.writePending.1, c.writePending.2.failing e) := by
  have hwrite := writeDirect_failing c e c.pending
  have hopen : (c.failing e).isOpen = c.isOpen := rfl
  have hpending : (c.failing e).pending = c.pending := rfl
  unfold Buffered.writePending
  rw [hopen, hpending, hwrite]
  cases c.isOpen <;> rfl

theorem turnToInput_failing (c : Buffered σ) (e : IoError) :
    (c.failing e).turnToInput = c.turnToInput.failing e := by
  have hwrite := writePending_failing c e
  unfold Buffered.turnToInput
  by_cases hp : 0 < c.put.consumed
  · have hp' : 0 < (c.failing e).put.consumed := hp
    rw [if_pos hp, if_pos hp', hwrite]
    rfl
  · have hp' : ¬ 0 < (c.failing e).put.consumed := hp
    rw [if_neg hp, if_neg hp']
    rfl

theorem takeFresh_failing (c : Buffered σ) (e : IoError) (n : Nat) :
    (c.failing e).takeFresh n = ((c.takeFresh n).1, (c.takeFresh n).2.failing e) := by
  have hfill := refill_failing c e
  have hread := readDirect_failing c e n
  have hsize : (c.failing e).buffer = c.buffer := rfl
  unfold Buffered.takeFresh
  rw [hfill, hread, hsize]
  by_cases hn : n = 0
  · rw [if_pos hn, if_pos hn]
  rw [if_neg hn, if_neg hn]
  split <;> rfl

theorem read_failing (c : Buffered σ) (e : IoError) (n : Nat) :
    (c.failing e).read n = ((c.read n).1, (c.read n).2.failing e) := by
  have hcr : (c.failing e).canRead = c.canRead := rfl
  have hturn : Buffered.turnToInput { c.failing e with pushedBack := false } =
      (Buffered.turnToInput { c with pushedBack := false }).failing e :=
    turnToInput_failing { c with pushedBack := false } e
  have hahead (c : Buffered σ) (k : Nat) :
      (c.failing e).takeAhead k = ((c.takeAhead k).1, (c.takeAhead k).2.failing e) := rfl
  unfold Buffered.read
  rw [hcr]
  by_cases hno : n = 0 ∨ c.canRead = false
  · rw [if_pos hno, if_pos hno]
  rw [if_neg hno, if_neg hno]
  simp only [hturn, takeCell_failing, hahead, takeFresh_failing]

theorem peek_failing (c : Buffered σ) (e : IoError) :
    (c.failing e).peek = (c.peek.1, c.peek.2.failing e) := by
  rw [Buffered.peek, Buffered.peek]
  by_cases hr : c.canRead = false
  · rw [if_pos hr, if_pos (show (c.failing e).canRead = false from hr)]
  rw [if_neg hr, if_neg (show ¬ (c.failing e).canRead = false from hr)]
  by_cases ha : 0 < c.get.available
  · rw [if_pos ha, if_pos (show 0 < (c.failing e).get.available from ha)]
    rfl
  rw [if_neg ha, if_neg (show ¬ 0 < (c.failing e).get.available from ha)]
  by_cases hp : c.onCell = true ∧ 0 < c.filled
  · rw [if_pos hp, if_pos (show (c.failing e).onCell = true ∧ 0 < (c.failing e).filled from hp)]
    rfl
  rw [if_neg hp, if_neg (show ¬ ((c.failing e).onCell = true ∧ 0 < (c.failing e).filled) from hp)]
  by_cases hb : c.buffer = []
  · have hread := readDirect_failing { c with filled := 0 } e 1
    rw [if_pos hb, if_pos (show (c.failing e).buffer = [] from hb)]
    exact congrArg (fun r : Bytes × Buffered σ => (r.1.head?, { r.2 with
      cell := r.1.headD 0
      onCell := true
      get := .clamped 0 0 r.1.length })) hread
  · have hfill := refill_failing { c.turnToInput with onCell := false } e
    rw [if_neg hb, if_neg (show ¬ (c.failing e).buffer = [] from hb), turnToInput_failing]
    exact congrArg (fun c' : Buffered σ =>
      (if 0 < c'.filled then some (c'.buffer.getD 0 0) else none,
        { c' with get := .clamped 0 0 c'.filled })) hfill

theorem readByte_failing (c : Buffered σ) (e : IoError) :
    (c.failing e).readByte = (c.readByte.1, c.readByte.2.failing e) := by
  unfold Buffered.readByte
  rw [peek_failing]
  rcases c.peek with ⟨_ | b, c'⟩ <;> rfl

/-- Where nothing is at hand the failure is told, and is gone. -/
theorem peekChunk_failing (c : Buffered σ) (e : IoError) (hquiet : c.peek.2.error = none) :
    (c.failing e).peekChunk = (c.peekChunk.1, c.peekChunk.2.failing e) ∨
      c.peek.1 = none ∧ c.peekChunk = (.ok [], c.peek.2) ∧
        (c.failing e).peekChunk = (.error e, c.peek.2) := by
  rw [Buffered.peekChunk, Buffered.peekChunk]
  by_cases ha : c.get.available = 0
  · rw [if_pos ha, if_pos (show (c.failing e).get.available = 0 from ha), peek_failing]
    rcases hp : c.peek with ⟨_ | b, c'⟩
    · have hquiet : c'.error = none := by rw [← hquiet, hp]
      refine .inr ⟨rfl, ?_, ?_⟩
      · simp only [hquiet]
      · exact congrArg (Except.error e, ·) (clearError_eq hquiet)
    · exact .inl rfl
  · rw [if_neg ha, if_neg (show ¬ (c.failing e).get.available = 0 from ha)]
    exact .inl rfl

theorem fill_failing (c : Buffered σ) (e : IoError) (n : Nat) (hquiet : c.peek.2.error = none) :
    (c.failing e).fill n = ((c.fill n).1, (c.fill n).2.failing e) ∨
      c.peek.1 = none ∧ (c.fill n).1 = .ok [] ∧ (c.failing e).fill n = (.error e, c.peek.2) := by
  unfold Buffered.fill
  obtain hsame | ⟨hnone, hend, htold⟩ := c.peekChunk_failing e hquiet
  · rw [hsame]
    left
    rcases c.peekChunk with ⟨e' | bs, c'⟩ <;> rfl
  · rw [hend, htold]
    exact .inr ⟨hnone, rfl, rfl⟩

/-! ## The stream behind a failure -/

variable [Reliable σ] {mode : OpenMode} {text : Bool} {u stream : Bytes} {g : File}

/-- An input call takes what comes next, or tells of the failure where nothing is to come. -/
theorem Stands.input_quiet (h : Stands mode text { c with error := none } u g)
    (hr : mode.isReadable = true) (hlen : Reads σ mode text g) (call : Call)
    (hcall : call.isInput = true) :
    call.Delivers (g.coming text u) (c.perform call).1.quiet ∧
      ∃ u' g', Stands mode text { (c.perform call).2 with error := none } u' g' ∧
        Taken text u g (call.taken (c.perform call).1) u' g' := by
  cases he : c.error with
  | none =>
    rw [clearError_eq he] at h
    obtain ⟨hd, u', g', hs, ht⟩ := h.input hr hlen call hcall
    rw [hd.quiet, clearError_eq hs.error_eq]
    exact ⟨hd, u', g', hs, ht⟩
  | some e =>
    rw [eq_failing he]
    generalize ({ c with error := none } : Buffered σ) = c₀ at h
    obtain ⟨hd, u', g', hs, ht⟩ := h.input hr hlen call hcall
    have hsame (heq : (c₀.failing e).perform call =
        ((c₀.perform call).1, (c₀.perform call).2.failing e)) :
        call.Delivers (g.coming text u) ((c₀.failing e).perform call).1.quiet ∧
          ∃ u' g', Stands mode text { ((c₀.failing e).perform call).2 with error := none } u' g' ∧
            Taken text u g (call.taken ((c₀.failing e).perform call).1) u' g' := by
      rw [heq, hd.quiet, show ({ (c₀.perform call).2.failing e with error := none } : Buffered σ) =
        (c₀.perform call).2 from clearError_eq hs.error_eq]
      exact ⟨hd, u', g', hs, ht⟩
    cases call with
    | read n =>
      apply hsame
      simp only [Buffered.perform, read_failing]
      rfl
    | readByte =>
      apply hsame
      simp only [Buffered.perform, readByte_failing]
      rfl
    | peek =>
      apply hsame
      simp only [Buffered.perform, peek_failing]
      rfl
    | fill n =>
      obtain ⟨hhead, u', g', hpeeked, ht'⟩ := h.input hr hlen .peek rfl
      obtain hfill | ⟨hnone, -, htold⟩ := c₀.fill_failing e n hpeeked.error_eq
      · apply hsame
        simp only [Buffered.perform, hfill]
        rfl
      · -- the failure is told at the end of the stream, as an answer that shows nothing
        have hend : g.coming text u = [] := List.head?_eq_none_iff.1 (hhead.symm.trans hnone)
        have hquiet : ({ c₀.peek.2 with error := none } : Buffered σ) = c₀.peek.2 :=
          clearError_eq hpeeked.error_eq
        simp only [Buffered.perform, htold]
        refine ⟨⟨[], rfl, List.nil_prefix, fun _ => hend⟩, u', g', ?_, ht'⟩
        change Stands mode text { c₀.peek.2 with error := none } u' g'
        rw [hquiet]
        exact hpeeked
    | _ => cases hcall

/-- An input call delivers the next stretch of the stream, or tells of the failure at its end. -/
theorem Streams.perform_quiet (h : Streams mode text { c with error := none } stream)
    (hr : mode.isReadable = true) (call : Call) (hcall : call.isInput = true) :
    call.Delivers stream (c.perform call).1.quiet ∧
      Streams mode text { (c.perform call).2 with error := none }
        (stream.drop (call.taken (c.perform call).1).length) := by
  obtain ⟨u, g, hst, hlen, rfl⟩ := h
  obtain ⟨hd, u', g', hc', ht⟩ := hst.input_quiet hr hlen call hcall
  exact ⟨hd, .take hlen hc' ht⟩

theorem Streams.performAll_quiet (h : Streams mode text { c with error := none } stream)
    (hr : mode.isReadable = true) (calls : List Call)
    (hcalls : ∀ call ∈ calls, call.isInput = true) :
    Call.DeliversAll stream calls ((c.performAll calls).1.map Answer.quiet) := by
  induction calls generalizing c stream with
  | nil => trivial
  | cons call calls ih =>
    obtain ⟨hd, hs⟩ := h.perform_quiet hr call (hcalls call List.mem_cons_self)
    refine ⟨hd, ?_⟩
    rw [call.taken_quiet]
    exact ih hs fun call' hcall' => hcalls call' (List.mem_cons_of_mem call hcall')

end Buffered

end ByteChannel
