import Mathlib
import ByteChannel.Proofs.Buffered.Appending
import ByteChannel.Proofs.Buffered.Delivery

/-!
# A channel that appends only appends

Whatever is called on a channel that was opened to append, and whatever fails underneath, the bytes
that its device held stay where they were. If no write and no seek to the end failed, a flush or the
closing leaves after them exactly what the calls counted as taken.
-/

namespace ByteChannel.Buffered

open Text

variable {σ : Type} [Device σ] [Appendable σ] {c c' : Buffered (Watched σ)}

theorem Appending.perform (h : Appending c) (call : Call) :
    Lengthens c (c.perform call).2 (call.counted (c.perform call).1) := by
  cases call with
  | read n => exact h.read n
  | readByte => exact h.readByte
  | peek => exact h.peek
  | fill n => exact h.fill n
  | unread b => exact h.unread b
  | write src =>
    obtain ⟨k, c', hr, hl⟩ := h.write src
    simp only [Buffered.perform, hr]
    exact hl
  | writeByte b =>
    obtain ⟨ok, c', hr, hl⟩ := h.writeByte b
    simp only [Buffered.perform, hr]
    exact hl
  | overflow b =>
    obtain ⟨ok, c', hr, hl⟩ := h.overflow b
    simp only [Buffered.perform, hr]
    exact hl
  | flush =>
    obtain ⟨r, c', hr, _, hl, _⟩ := h.flush
    simp only [Buffered.perform, hr]
    exact hl
  | seek o => exact h.seek o
  | tell => exact h.seek _
  | install buffer => exact h.installBuffer buffer
  | resize n => exact h.installBuffer _

theorem Appending.performAll (h : Appending c) (calls : List Call) :
    Lengthens c (c.performAll calls).2 (Call.countedAll calls (c.performAll calls).1) := by
  induction calls generalizing c with
  | nil => exact h.refl
  | cons call calls ih =>
    have hone := h.perform call
    exact hone.trans (ih hone.appending)

/-- What a channel that appends makes of its device: the bytes at the opening stay in front, and
where no output failed those counted as taken stand behind them, nothing else. -/
theorem appended_output_follows_old_bytes {d : Watched σ} {mode : OpenMode}
    (hattach : c.attach d mode = .ok c') (happend : mode.append = true) (calls : List Call) :
    let run := c'.performAll calls
    let text := !mode.binary && c.settings.textPolicy.translates
    let grown := d.bytes ++ encoded text (Call.countedAll calls run.1)
    (∃ d', run.2.device = some d' ∧ d.bytes <+: d'.bytes) ∧
      (∃ d', run.2.flush.2.device = some d' ∧ d.bytes <+: d'.bytes ∧
        (d'.failed = false → run.2.flush.1 = .ok () ∧ d'.bytes = grown)) ∧
      ∃ d', run.2.close.2.2 = some d' ∧ d.bytes <+: d'.bytes ∧
        (d'.failed = false → d'.bytes = grown) := by
  intro run text grown
  obtain ⟨h, hstored, hempty, htext, _⟩ := Appending.of_attach hattach happend
  have hl := h.performAll calls
  obtain ⟨r, c₁, hr, hp, hflush, hok⟩ := hl.appending.flush
  have hall := hl.nil_trans hflush
  obtain ⟨d₁, hd₁⟩ := hflush.appending.device
  have hst₁ : c₁.stored = d₁.bytes := by rw [stored, hd₁]; rfl
  have hbr₁ : c₁.isBroken = d₁.failed := by rw [isBroken, hd₁]; rfl
  have hkept : d.bytes <+: d₁.bytes := by
    rw [← hstored, ← hst₁]
    exact hall.kept
  have hgrown (hf : d₁.failed = false) : d₁.bytes = grown := by
    obtain ⟨_, hlaid⟩ := hall.exact (hbr₁.trans hf)
    rw [laid, laid, hp, hempty, encoded_nil, encoded_nil, List.append_nil, List.append_nil, hst₁,
      hstored, htext] at hlaid
    exact hlaid
  refine ⟨?_, ⟨d₁, by rw [hr, hd₁], hkept, fun hf => ⟨?_, hgrown hf⟩⟩, ?_⟩
  · obtain ⟨d₀, hd₀⟩ := hl.appending.device
    refine ⟨d₀, hd₀, ?_⟩
    have hst₀ : run.2.stored = d₀.bytes := by rw [stored, hd₀]; rfl
    rw [← hstored, ← hst₀]
    exact hl.kept
  · rw [hr]
    exact hok (hbr₁.trans hf)
  · obtain ⟨d₂, d', hd₂, hd', hidle⟩ := hl.appending.close
    rw [hr] at hd₂
    cases hd₁.symm.trans hd₂
    exact ⟨d', hd', hidle.bytes ▸ hkept, fun hf => hidle.bytes.trans (hgrown (hidle.notes hf))⟩

/-- A byte is pushed back at the start, where the seek that gives it up leads before the start and
fails. That seek is no failure of output, and the two writes arrive behind the old bytes. -/
theorem appended_output_follows_old_bytes_pushback :
    let d : Watched Faulty := { device := { cursor := .ofBytes [97, 98] 0 } }
    let mode : OpenMode := { read := true, append := true }
    let calls : List Call := [.readByte, .seek (.start 0), .unread 120, .write [104, 10], .readByte,
      .seek (.start 1), .writeByte 33]
    ∃ c', (withSettings { bufferSize := 4, textPolicy := .translate }).attach d mode = .ok c' ∧
      (c'.performAll calls).2.isFailed = true ∧
      ∃ d', (c'.performAll calls).2.close.2.2 = some d' ∧
        d'.bytes = [97, 98, 104, 13, 10, 33] := by
  intro d mode calls
  generalize hstart : (withSettings { bufferSize := 4, textPolicy := .translate }).attach d mode = r
  have hrun : r.toOption.map (fun c => ((c.performAll calls).2.isFailed,
      (c.performAll calls).2.close.2.2.map Watched.failed,
      encoded true (Call.countedAll calls (c.performAll calls).1))) =
        some (true, some false, [104, 13, 10, 33]) := by
    rw [← hstart]
    cbv
  cases r with
  | error e => cases hrun
  | ok c' =>
    obtain ⟨_, _, d', hd', _, hgrown⟩ := appended_output_follows_old_bytes hstart rfl calls
    simp only [Except.toOption, Option.map_some, Option.some.injEq, Prod.mk.injEq, hd'] at hrun
    obtain ⟨hfailed, hquiet, hcounted⟩ := hrun
    refine ⟨c', rfl, hfailed, d', hd', ?_⟩
    have hbytes : d.bytes = [97, 98] := Cursor.bytes_ofBytes _ _
    rw [hgrown hquiet, hbytes]
    exact congrArg ([97, 98] ++ ·) hcounted

end ByteChannel.Buffered
