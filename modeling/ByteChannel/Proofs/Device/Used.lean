import ByteChannel.Proofs.Device.Along
import ByteChannel.Proofs.Device.Call
import ByteChannel.Text.Expander

/-!
# Devices in use

Whatever whole transfers and the scanners of text ask of a device are reads, writes and seeks, and
never a write of nothing. A logged device keeps a list of what was asked of it, so that two devices
that are equal were asked for the same, and a close stands in the list where it was made.
-/

namespace ByteChannel

namespace Device

variable {σ : Type} [Device σ] {s s' s'' : σ}

theorem performAll_append (s : σ) (first second : List IoCall) :
    (performAll s (first ++ second)).2 = (performAll (performAll s first).2 second).2 := by
  induction first generalizing s with
  | nil => rfl
  | cons call first ih => exact ih (perform s call).2

/-! ## Along any use -/

/-- Calls that a transfer makes. -/
def Proper (calls : List IoCall) : Prop := ∀ src, .write src ∈ calls → src ≠ []

/-- A later state of a device that was read from, written to and moved in between. -/
def Used (s s' : σ) : Prop := ∃ calls, Proper calls ∧ (performAll s calls).2 = s'

theorem used_of_call (s : σ) (call : IoCall) (hc : ∀ src, call = .write src → src ≠ []) :
    Used s (perform s call).2 :=
  ⟨[call], fun src hm => hc src (List.mem_singleton.1 hm).symm, rfl⟩

theorem Used.refl (s : σ) : Used s s := ⟨[], fun _ hm => absurd hm List.not_mem_nil, rfl⟩

theorem Used.trans (h : Used s s') (h' : Used s' s'') : Used s s'' := by
  obtain ⟨first, hf, rfl⟩ := h
  obtain ⟨second, hs, rfl⟩ := h'
  refine ⟨first ++ second, fun src hm => ?_, performAll_append s first second⟩
  rcases List.mem_append.1 hm with hm | hm
  · exact hf src hm
  · exact hs src hm

theorem used_write (s : σ) {src : Bytes} (h : src ≠ []) : Used s (Device.write s src).2 :=
  used_of_call s (.write src) fun _ he => by cases he; exact h

theorem used_seek (s : σ) (o : Origin) : Used s (Device.seek s o).2 :=
  used_of_call s (.seek o) fun _ he => by cases he

theorem along_used : Along (Used : σ → σ → Prop) where
  refl := .refl
  trans := .trans
  read s n := used_of_call s (.read n) fun _ he => by cases he
  seek := used_seek

theorem used_writeChunk (s : σ) {src : Bytes} (h : src ≠ []) : Used s (writeChunk s src).2 := by
  fun_induction writeChunk s src with
  | case1 s r k hr => exact used_write s h
  | case2 s r e hr hk ih => exact (used_write s h).trans ih
  | case3 s r e hr hk => exact used_write s h

theorem used_writeFully (s : σ) (src : Bytes) : Used s (writeFully s src).2 := by
  fun_induction writeFully s src with
  | case1 => exact .refl _
  | case2 s src hs r e hr => exact used_writeChunk s hs
  | case3 s src hs r hr => exact used_writeChunk s hs
  | case4 s src hs r k hr hk rest ih => exact (used_writeChunk s hs).trans ih

/-! ## Along written text -/

section

open Text (Expander)

theorem used_ite {p : Prop} [Decidable p] {r r' : Bool × Expander × σ} (h : Used s r.2.2)
    (h' : Used s r'.2.2) : Used s (if p then r else r').2.2 := by
  split
  · exact h
  · exact h'

theorem used_flush (s : σ) (t : Expander) : Used s (t.flush s).2.2 := used_writeFully s t.batch

theorem used_appendNewline (s : σ) (t : Expander) : Used s (t.appendNewline s).2.2 := by
  have hroom : Used s (if t.room < 2 then t.flush s else (true, t, s)).2.2 :=
    used_ite (used_flush s t) (.refl s)
  exact used_ite hroom hroom

theorem used_append (s : σ) (t : Expander) (bs : Bytes) : Used s (t.append s bs).2.2 := by
  have hempty : Used s (if t.gathered = [] then (true, t, s) else t.flush s).2.2 :=
    used_ite (.refl s) (used_flush s t)
  apply used_ite
  · exact used_ite (hempty.trans (used_writeFully _ bs)) hempty
  · apply used_ite
    · exact used_ite (used_flush s t) (used_flush s t)
    · have hfull := used_flush s (t.gather (bs.take t.room))
      exact used_ite (used_ite hfull hfull) (.refl s)

theorem used_appendLines (s : σ) (t : Expander) (ls : List Bytes) :
    Used s (t.appendLines s ls).2.2 := by
  induction ls generalizing s t with
  | nil => exact .refl s
  | cons l ls ih =>
    have hline : Used s (if l = [] then (true, t, s) else t.append s l).2.2 :=
      used_ite (.refl s) (used_append s t l)
    have hnewline := hline.trans (used_appendNewline _
      (if l = [] then (true, t, s) else t.append s l).2.1)
    exact used_ite (used_ite (hnewline.trans (ih _ _)) hnewline) hline

theorem used_finish (s : σ) (t : Expander) (rest : Bytes) : Used s (t.finish s rest).2.2 := by
  have hflush := used_flush s t
  apply used_ite
  · exact used_ite (.refl s) hflush
  · apply used_ite (used_writeFully s rest)
    exact used_ite (used_ite (hflush.trans (used_writeFully _ rest)) hflush)
      (used_flush s (t.gather rest))

theorem used_expanded (s : σ) (t : Expander) (src : Bytes) : Used s (t.write s src).2.2 := by
  have hlines := used_appendLines s t.cleared (Text.lines src).1
  exact used_ite (hlines.trans (used_finish _ _ (Text.lines src).2)) hlines

end

end Device

/-! ## Logs -/

/-- What a device can be asked for. -/
inductive Request
  | io (call : IoCall)
  | close
  deriving DecidableEq, Repr

/-- Any device, with a list of what it was asked for. -/
structure Logged (σ : Type) where
  device : σ
  log : List Request := []

namespace Logged

variable {σ : Type} [Device σ]

instance : Device (Logged σ) where
  read s n := let r := Device.read s.device n; (r.1, ⟨r.2, s.log ++ [.io (.read n)]⟩)
  write s src := let r := Device.write s.device src; (r.1, ⟨r.2, s.log ++ [.io (.write src)]⟩)
  seek s o := let r := Device.seek s.device o; (r.1, ⟨r.2, s.log ++ [.io (.seek o)]⟩)
  close s := let r := Device.close s.device; (r.1, ⟨r.2, s.log ++ [.close]⟩)
  patience s := Device.patience s.device
  length_read_le h := Device.length_read_le h
  patience_read_lt h := Device.patience_read_lt h
  patience_write_lt h := Device.patience_write_lt h

theorem perform_eq (s : Logged σ) (call : IoCall) :
    (Device.perform s call).2 = ⟨(Device.perform s.device call).2, s.log ++ [.io call]⟩ := by
  cases call <;> rfl

/-- The log says what was asked, and the device is what those calls made of it. -/
theorem performAll_eq (s : Logged σ) (calls : List IoCall) :
    (Device.performAll s calls).2 =
      ⟨(Device.performAll s.device calls).2, s.log ++ calls.map .io⟩ := by
  induction calls generalizing s with
  | nil => simp [Device.performAll]
  | cons call calls ih =>
    simp only [Device.performAll, ih, perform_eq, List.map_cons, List.append_assoc,
      List.singleton_append]

end Logged

end ByteChannel
