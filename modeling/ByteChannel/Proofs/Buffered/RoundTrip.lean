import Mathlib
import ByteChannel.Proofs.Buffered.Output
import ByteChannel.Proofs.Buffered.Streams

/-!
# Text survives writing and reading

However a text is cut into output calls, a text channel takes all of it and leaves its expanded form
on the device. A text channel that reads this form delivers the text, however it is read. Neither
depends on the buffers or on how the devices cut their transfers.
-/

namespace ByteChannel

namespace Call

def isOutput : Call → Bool
  | write _ | writeByte _ | overflow _ | flush | install _ | resize _ => true
  | _ => false

def source : Call → Bytes
  | write src => src
  | writeByte b => [b]
  | overflow b => [b]
  | _ => []

/-- Whether an output call did all that it was to do. -/
def Accepted : Call → Answer → Prop
  | write src, .count k => k = src.length
  | writeByte _, .flag accepted => accepted = true
  | overflow _, .flag accepted => accepted = true
  | flush, .outcome r => r = .ok ()
  | install _, .outcome r => r = .ok ()
  | resize _, .outcome r => r = .ok ()
  | _, _ => False

def AcceptedAll : List Call → List Answer → Prop
  | call :: calls, a :: as => Accepted call a ∧ AcceptedAll calls as
  | [], [] => True
  | _, _ => False

end Call

namespace Buffered

open Reliable Text

variable {σ : Type} [Device σ] [Reliable σ] {c : Buffered σ} {mode : OpenMode} {text : Bool}
  {g : File}

theorem Stands.accept (h : Stands mode text c [] g) (hw : mode.isWritable = true) (call : Call)
    (hcall : call.isOutput = true)
    (hlen : mode.append = true → (g.sent mode text call.source).bytes.length ≤ top σ) :
    call.Accepted (c.perform call).1 ∧
      Stands mode text (c.perform call).2 [] (g.sent mode text call.source) := by
  have hback : Rewinds σ text [] g := fun hu => absurd rfl hu
  have hg (ha : mode.append = true) : g.bytes.length ≤ top σ :=
    Nat.le_trans (g.length_le_sent call.source) (hlen ha)
  have hr := g.rewound_nil text
  cases call with
  | write src =>
    obtain ⟨c', hput, hc'⟩ := h.write hw src hback (by rwa [hr])
    rw [hr] at hc'
    simp only [Buffered.perform, hput]
    exact ⟨rfl, hc'⟩
  | writeByte b =>
    obtain ⟨c', hput, hc'⟩ := h.writeByte hw b hback hg
    rw [hr] at hc'
    simp only [Buffered.perform, hput]
    exact ⟨rfl, hc'⟩
  | overflow b =>
    obtain ⟨c', hput, hc'⟩ := h.overflow hw b hback hg
    rw [hr] at hc'
    simp only [Buffered.perform, hput]
    exact ⟨rfl, hc'⟩
  | flush =>
    obtain ⟨c', hflush, hc'⟩ := h.flush hback hg
    rw [hr] at hc'
    simp only [Buffered.perform, hflush]
    exact ⟨rfl, g.sent_nil.symm ▸ of_held hc'⟩
  | install buffer =>
    obtain ⟨c', hinstall, hc'⟩ := h.installBuffer buffer hg
    simp only [Buffered.perform, hinstall]
    exact ⟨rfl, g.sent_nil.symm ▸ of_held hc'⟩
  | resize n =>
    obtain ⟨c', hinstall, hc'⟩ := h.installBuffer (List.replicate n 0) hg
    simp only [Buffered.perform, resizeBuffer, hinstall]
    exact ⟨rfl, g.sent_nil.symm ▸ of_held hc'⟩
  | _ => cases hcall

theorem Stands.acceptAll (h : Stands mode text c [] g) (hw : mode.isWritable = true)
    (calls : List Call) (hcalls : ∀ call ∈ calls, call.isOutput = true)
    (hlen : mode.append = true →
      (g.sent mode text (calls.flatMap Call.source)).bytes.length ≤ top σ) :
    Call.AcceptedAll calls (c.performAll calls).1 ∧
      Stands mode text (c.performAll calls).2 []
        (g.sent mode text (calls.flatMap Call.source)) := by
  induction calls generalizing c g with
  | nil => exact ⟨trivial, g.sent_nil.symm ▸ h⟩
  | cons call calls ih =>
    have hsent : g.sent mode text ((call :: calls).flatMap Call.source) =
        (g.sent mode text call.source).sent mode text (calls.flatMap Call.source) := by
      rw [File.sent_append, List.flatMap_cons]
    rw [hsent] at hlen ⊢
    have hone (ha : mode.append = true) : (g.sent mode text call.source).bytes.length ≤ top σ :=
      Nat.le_trans (File.length_le_sent _ _) (hlen ha)
    obtain ⟨ha, hc⟩ := h.accept hw call (hcalls call List.mem_cons_self) hone
    obtain ⟨hall, hend⟩ :=
      ih hc (fun call' hcall' => hcalls call' (List.mem_cons_of_mem call hcall')) hlen
    exact ⟨⟨ha, hall⟩, hend⟩

theorem bytes_sent_empty (mode : OpenMode) (text : Bool) (src : Bytes) :
    (File.sent ⟨[], 0⟩ mode text src).bytes = encoded text src := by
  have hend : (⟨[], 0⟩ : File).atEnd = ⟨[], 0⟩ := rfl
  by_cases hsrc : src = []
  · rw [hsrc, File.sent_nil, encoded_nil]
  · rw [File.sent_of_ne_nil _ hsrc, hend, ite_self]
    exact File.write_atEnd ⟨[], 0⟩ (encoded text src)

/-- A text that is written in any pieces onto an empty device leaves its expanded form there, and
from this form any reader gets the text back. -/
theorem text_round_trip {τ : Type} [Device τ] [Reliable τ] {w : Buffered σ} {r : Buffered τ} {d : σ}
    {e : τ} {wmode rmode : OpenMode} (writes reads : List Call)
    (hw : w.isOpen = false) (hd : Shows d ⟨[], 0⟩) (hwrite : wmode.isWritable = true)
    (hwtext : wmode.binary = false) (hwpolicy : w.settings.textPolicy.translates = true)
    (hwrites : ∀ call ∈ writes, call.isOutput = true)
    (hr : r.isOpen = false) (he : Shows e ⟨expand (writes.flatMap Call.source), 0⟩)
    (hread : rmode.isReadable = true) (hstart : rmode.startsAtEnd = false)
    (hrtext : rmode.binary = false) (hrpolicy : r.settings.textPolicy.translates = true)
    (hreads : ∀ call ∈ reads, call.isInput = true)
    (hwtop : wmode.append = true → (expand (writes.flatMap Call.source)).length ≤ top σ)
    (hrtop : (expand (writes.flatMap Call.source)).length ≤ top τ) :
    (∃ w', w.attach d wmode = .ok w' ∧
      let run := w'.performAll writes
      Call.AcceptedAll writes run.1 ∧ run.2.close.1 = .ok () ∧
        ∃ d' g, run.2.close.2.2 = some d' ∧ Shows d' g ∧
          g.bytes = expand (writes.flatMap Call.source)) ∧
    ∃ r', r.attach e rmode = .ok r' ∧
      let answers := (r'.performAll reads).1
      Call.DeliversAll (writes.flatMap Call.source) reads answers ∧
        Call.takenAll reads answers <+: writes.flatMap Call.source ∧
        ((∃ a ∈ reads.zip answers, a.1.reportsEnd a.2 = true) →
          Call.takenAll reads answers = writes.flatMap Call.source) := by
  generalize hsrc : writes.flatMap Call.source = src at *
  constructor
  · obtain ⟨w', hattach, hw'⟩ := attach_held hw hd wmode fun _ => Nat.zero_le _
    have htext : (!wmode.binary && w.settings.textPolicy.translates) = true := by
      simp [hwtext, hwpolicy]
    have hopened : File.opened ⟨[], 0⟩ wmode = ⟨[], 0⟩ := ite_self _
    have hbytes := bytes_sent_empty wmode true src
    have hlen : wmode.append = true → (File.sent ⟨[], 0⟩ wmode true src).bytes.length ≤ top σ := by
      rwa [hbytes]
    rw [htext, hopened] at hw'
    obtain ⟨hall, hend⟩ := (Stands.of_held hw').acceptAll hwrite writes hwrites (hsrc ▸ hlen)
    rw [hsrc] at hend
    obtain ⟨hok, d', hd', hshows⟩ := hend.close (fun hu => absurd rfl hu) hlen
    exact ⟨w', hattach, hall, hok, d', _, hd', hshows, hbytes⟩
  · obtain ⟨r', hattach, hstreams⟩ := attach_streams hr he hrtop rmode
    have htext : (!rmode.binary && r.settings.textPolicy.translates) = true := by
      simp [hrtext, hrpolicy]
    have hrest : (File.opened ⟨expand src, 0⟩ rmode).rest = expand src := by
      rw [File.opened, hstart]
      rfl
    rw [htext, hrest, decoded_true, collapse_expand] at hstreams
    have hall := hstreams.performAll hread reads hreads
    exact ⟨r', hattach, hall, hall.takenAll_prefix, hall.takenAll_of_reportsEnd⟩

/-- Two bytes of buffer over a device that takes single bytes, and then another channel with four
over a device that never cuts a transfer. -/
theorem text_round_trip_cut :
    let d : Faulty := { cursor := .ofBytes [] 0, writeChunk := some 1, interruptPeriod := 3 }
    let e : Cursor := .ofBytes [97, 13, 10, 13, 13, 10, 13, 13, 10, 98] 0
    let wmode : OpenMode := { append := true }
    let rmode : OpenMode := { read := true }
    let writes : List Call := [.write [97, 10, 13], .writeByte 10, .flush, .resize 5, .overflow 13,
      .write [10, 98]]
    let reads : List Call := [.readByte, .read 3, .peek, .fill 9, .fill 9, .read 1]
    (∃ w', (withSettings { bufferSize := 2, textPolicy := .translate }).attach d wmode = .ok w' ∧
      ∃ d' g, (w'.performAll writes).2.close.2.2 = some d' ∧ Shows d' g ∧
        g.bytes = [97, 13, 10, 13, 13, 10, 13, 13, 10, 98]) ∧
    ∃ r', (withSettings { bufferSize := 4, textPolicy := .translate }).attach e rmode = .ok r' ∧
      Call.takenAll reads (r'.performAll reads).1 = [97, 10, 13, 10, 13, 10, 98] := by
  intro d e wmode rmode writes reads
  have hd : Shows d ⟨[], 0⟩ := ⟨⟨by decide, by decide, rfl, rfl, rfl, rfl⟩, by cbv⟩
  have he : Shows e ⟨expand (writes.flatMap Call.source), 0⟩ := by
    change e.file = _
    cbv
  have hwrite : wmode.isWritable = true := rfl
  have hread : rmode.isReadable = true := rfl
  have hwrites : ∀ call ∈ writes, call.isOutput = true := by decide
  have hreads : ∀ call ∈ reads, call.isInput = true := by decide
  obtain ⟨⟨w', hattach, _, _, d', g, hd', hshows, hg⟩, r', hrattach, _, _, hall⟩ := text_round_trip
    (w := withSettings { bufferSize := 2, textPolicy := .translate })
    (r := withSettings { bufferSize := 4, textPolicy := .translate }) writes reads rfl hd hwrite rfl
    rfl hwrites rfl he hread rfl rfl rfl hreads (fun _ => by decide) (by decide)
  refine ⟨⟨w', hattach, d', g, hd', hshows, hg⟩, ?_⟩
  cases (hrattach.symm.trans rfl : Except.ok r' = _)
  exact ⟨_, hrattach, hall ⟨(.read 1, .bytes []), List.mem_of_getElem? (i := 5) (by cbv), rfl⟩⟩

end Buffered

end ByteChannel
