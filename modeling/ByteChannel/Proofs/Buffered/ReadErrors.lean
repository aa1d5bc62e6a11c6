import ByteChannel.Proofs.Buffered.Drawn
import ByteChannel.Proofs.Buffered.Streams
import ByteChannel.Proofs.Text.Parted

/-!
# What text delivers while reads fail

As long as no failure is latched, the text that a channel delivers over a faltering device is that
of the file, except that a line end may stay two bytes where the lookahead behind its carriage
return failed. No such place comes without a failed read. All the other reads of a channel latch
what stopped them.
-/

namespace ByteChannel

def Call.isRead : Call → Bool
  | read _ | readByte | peek => true
  | _ => false

namespace Buffered

open Faltering Text

section

variable {σ : Type} [Device σ] {c : Buffered σ}

theorem Listening.perform (h : Listening c) (call : Call) (hcall : call.isRead = true) :
    Listening (c.perform call).2 ∧
      Draws c (call.taken (c.perform call).1) (c.perform call).2 := by
  cases call with
  | read n => exact h.read n
  | readByte => exact h.readByte
  | peek => exact ⟨h.peek.listening, h.peek.draws⟩
  | _ => cases hcall

theorem Draws.error_eq_none {c' : Buffered σ} {bs : Bytes} (h : Draws c bs c')
    (he : c'.error = none) : c.error = none := by
  cases h with
  | stay _ _ _ herror => exact herror.symm.trans he
  | draw _ _ _ _ _ herror => exact (Option.or_eq_none_iff.1 (herror.symm.trans he)).1

theorem Listening.error_eq_none (h : Listening c) {calls : List Call}
    (hcalls : ∀ call ∈ calls, call.isRead = true) (he : (c.performAll calls).2.error = none) :
    c.error = none := by
  induction calls generalizing c with
  | nil => exact he
  | cons call calls ih =>
    obtain ⟨h₁, hdraws⟩ := h.perform call (hcalls call List.mem_cons_self)
    exact hdraws.error_eq_none
      (ih h₁ (fun call' hmem => hcalls call' (List.mem_cons_of_mem call hmem)) he)

end

variable {σ : Type} [Device σ] [Faltering σ] {c : Buffered (Tallied σ)} {s : Tallied σ} {f : File}
  {mode : OpenMode}

/-- What may come as text from a device that shows `f`, if no failure is latched until the device is
`s'`. -/
def Foresees (s s' : Tallied σ) (f : File) (text : Bytes) : Prop :=
  ∃ n, s'.failures = s.failures + n ∧ Parted n f.rest text

theorem foresees_receive (hs : Shows s.device f) (hlen : f.bytes.length ≤ top σ) (room : Nat)
    (herror : (receive s true room).1.error = none) :
    ∃ g, g.bytes = f.bytes ∧ Shows (receive s true room).2.device g ∧ ∀ s' text,
      Foresees (receive s true room).2 s' g text →
        Foresees s s' f ((receive s true room).1.bytes ++ text) := by
  obtain ⟨k, hk, hbytes, hs₁, hpart⟩ := readCollapsed_covers hs hlen room herror
  have hle : s.failures ≤ (readCollapsed s room).2.failures :=
    along_failures.readCollapsed s room
  refine ⟨f.advance k, rfl, hs₁, ?_⟩
  rintro s' text ⟨n, hn, htext⟩
  change s'.failures = (readCollapsed s room).2.failures + n at hn
  change Foresees s s' f ((readCollapsed s room).1.bytes ++ text)
  rw [List.nil_append] at hbytes hpart
  rw [File.rest_advance] at htext
  rw [hbytes]
  by_cases hw : Whole (f.rest.take k) (f.rest.drop k)
  · refine ⟨s'.failures - s.failures, by omega, ?_⟩
    have h := (htext.append hw).mono (show n ≤ s'.failures - s.failures by omega)
    rwa [List.take_append_drop] at h
  · -- the parted line end costs one of the failures between the two
    have hlt := hpart hw
    refine ⟨s'.failures - s.failures, by omega, ?_⟩
    have h := (htext.part hw).mono (show n + 1 ≤ s'.failures - s.failures by omega)
    rwa [List.take_append_drop] at h

/-- Along reads that end without a latched failure, what is taken is what was unread and then the
text to come. -/
theorem Listening.foresees (h : Listening c) (htext : c.text = true) (hd : c.device = some s)
    (hs : Shows s.device f) (hlen : f.bytes.length ≤ top σ) (calls : List Call)
    (hcalls : ∀ call ∈ calls, call.isRead = true) :
    let r := c.performAll calls
    r.2.error = none → ∃ s', r.2.device = some s' ∧
      ∃ text, Foresees s s' f text ∧ Call.takenAll calls r.1 <+: c.stock ++ text := by
  induction calls generalizing c s f with
  | nil =>
    intro r herror
    exact ⟨s, hd, _, ⟨0, rfl, .whole 0 _⟩, List.nil_prefix⟩
  | cons call calls ih =>
    intro r herror
    obtain ⟨h₁, hdraws⟩ := h.perform call (hcalls call List.mem_cons_self)
    have hrest : ∀ call' ∈ calls, call'.isRead = true := fun call' hmem =>
      hcalls call' (List.mem_cons_of_mem call hmem)
    have htext₁ := hdraws.text_eq.trans htext
    have hnone : (c.perform call).2.error = none := h₁.error_eq_none hrest herror
    cases hdraws with
    | stay hstock hdevice _ _ =>
      obtain ⟨s', hs', text, hfore, htaken⟩ :=
        ih h₁ htext₁ (hdevice.trans hd) hs hlen hrest herror
      refine ⟨s', hs', text, hfore, ?_⟩
      rw [hstock, List.append_assoc]
      exact (List.prefix_append_right_inj _).2 htaken
    | @draw d room hd₁ hstock hdevice _ herror₁ =>
      rw [hd] at hd₁
      cases hd₁
      rw [htext] at hstock hdevice herror₁
      obtain ⟨g, hbytes, hg, hfore⟩ := foresees_receive hs hlen room
        (Option.or_eq_none_iff.1 (herror₁.symm.trans hnone)).2
      obtain ⟨s', hs', text, htext', htaken⟩ :=
        ih h₁ htext₁ hdevice hg (hbytes ▸ hlen) hrest herror
      refine ⟨s', hs', _, hfore s' text htext', ?_⟩
      rw [← List.append_assoc, hstock, List.append_assoc]
      exact (List.prefix_append_right_inj _).2 htaken

theorem attach_listening {c : Buffered (Tallied σ)} {d : σ} (hclosed : c.isOpen = false)
    (hs : Shows d f) (hlen : f.bytes.length ≤ top σ) (hread : mode.isReadable = true) :
    ∃ c' s, c.attach ⟨d, 0⟩ mode = .ok c' ∧ Listening c' ∧ c'.device = some s ∧
      Shows s.device (f.opened mode) ∧ s.failures = 0 ∧ c'.stock = [] ∧
      c'.text = (!mode.binary && c.settings.textPolicy.translates) := by
  obtain ⟨pos, s, hm, hs₁, hf⟩ : ∃ pos s, (if mode.startsAtEnd then
      Device.seek (⟨d, 0⟩ : Tallied σ) (.finish 0) else (.ok 0, ⟨d, 0⟩)) = (.ok pos, s) ∧
        Shows s.device (f.opened mode) ∧ s.failures = 0 := by
    unfold File.opened
    by_cases ha : mode.startsAtEnd = true
    · obtain ⟨s, hm, hs₁, hf⟩ := seek_end_shows (s := (⟨d, 0⟩ : Tallied σ)) hs hlen
      rw [if_pos ha, if_pos ha]
      exact ⟨_, s, hm, hs₁, hf⟩
    · rw [if_neg ha, if_neg ha]
      exact ⟨0, ⟨d, 0⟩, rfl, hs, rfl⟩
  have hopen : ¬ c.isOpen = true := by simp [hclosed]
  unfold attach
  rw [if_neg hopen]
  simp only [hm]
  refine ⟨_, s, rfl, ⟨coherent_reset fun hn => (by cases hn), ?_, ?_⟩, rfl, hs₁, hf, rfl, rfl⟩
  · exact hread
  · simp only [reset]
    split <;> rfl

/-- A text channel over a device whose reads may fail at any time, for any reason: as long as no
failure is latched, what the reads deliver is a prefix of the text of the file in which at most as
many line ends are parted as reads have failed. Where none has failed it is the collapsed text. -/
theorem text_parted_only_by_failed_reads {c : Buffered (Tallied σ)} {d : σ} {f : File}
    {mode : OpenMode} (hclosed : c.isOpen = false) (hs : Shows d f)
    (hlen : f.bytes.length ≤ top σ) (hread : mode.isReadable = true)
    (hbinary : mode.binary = false) (hpolicy : c.settings.textPolicy.translates = true)
    (calls : List Call) (hcalls : ∀ call ∈ calls, call.isRead = true) :
    ∃ c', c.attach ⟨d, 0⟩ mode = .ok c' ∧
      let r := c'.performAll calls
      r.2.error = none → ∃ s, r.2.device = some s ∧
        (∃ text, Parted s.failures (f.opened mode).rest text ∧ Call.takenAll calls r.1 <+: text) ∧
        (s.failures = 0 → Call.takenAll calls r.1 <+: collapse (f.opened mode).rest) := by
  obtain ⟨c', s, hattach, hlistening, hd, hs₁, hf, hstock, htext⟩ :=
    attach_listening hclosed hs hlen hread
  have hlen₁ : (f.opened mode).bytes.length ≤ top σ := by
    unfold File.opened
    split <;> exact hlen
  rw [hbinary, hpolicy] at htext
  refine ⟨c', hattach, fun herror => ?_⟩
  obtain ⟨s', hs', text, ⟨n, hn, hparted⟩, htaken⟩ :=
    hlistening.foresees htext hd hs₁ hlen₁ calls hcalls herror
  rw [hf, Nat.zero_add] at hn
  subst hn
  rw [hstock, List.nil_append] at htaken
  refine ⟨s', hs', ⟨text, hparted, htaken⟩, fun hnone => ?_⟩
  rw [hnone, Parted.zero_iff] at hparted
  rwa [← hparted]

/-- Three reads fail. The first two are interrupted, and the third one is a lookahead. -/
theorem text_parted_only_by_failed_reads_once :
    let d : Flaky :=
      { cursor := .ofBytes [97, 13, 10, 98] 0
        failing := [some Faulty.interruption, none, some Faulty.interruption,
          some Faulty.readFailed] }
    let calls : List Call := [.readByte, .peek, .read 1, .read 3]
    ∃ c', (withSettings { bufferSize := 2, textPolicy := .translate }).attach
      (⟨d, 0⟩ : Tallied Flaky) { read := true } = .ok c' ∧ (c'.performAll calls).2.error = none ∧
        ∃ text, Parted 1 [97, 13, 10, 98] text ∧
          Call.takenAll calls (c'.performAll calls).1 <+: text := by
  intro d calls
  have hs : Shows d ⟨[97, 13, 10, 98], 0⟩ := by
    change d.cursor.file = _
    cbv
  have hread : ({ read := true } : OpenMode).isReadable = true := rfl
  have hcalls : ∀ call ∈ calls, call.isRead = true := by decide
  obtain ⟨c', hattach, hall⟩ := text_parted_only_by_failed_reads
    (c := withSettings { bufferSize := 2, textPolicy := .translate }) rfl hs (by decide) hread rfl
    rfl calls hcalls
  have hrun : ((withSettings { bufferSize := 2, textPolicy := .translate }).attach
      (⟨d, 0⟩ : Tallied Flaky) { read := true }).toOption.map (fun c' =>
        ((c'.performAll calls).2.error, (c'.performAll calls).2.device.map Tallied.failures)) =
      some (none, some 1) := by
    unfold d calls
    cbv
  rw [hattach] at hrun
  obtain ⟨herror, hfailures⟩ := Prod.mk.inj (Option.some.inj hrun)
  obtain ⟨s, hd, htext, -⟩ := hall herror
  rw [hd, Option.map_some, Option.some.injEq] at hfailures
  rw [hfailures] at htext
  exact ⟨c', hattach, herror, htext⟩

/-- The lookahead behind the carriage return fails, and the next read succeeds. No failure is
latched, and both bytes of the line end are delivered. -/
theorem failed_lookahead_parts_line_end :
    let d : Flaky :=
      { cursor := .ofBytes [97, 13, 10, 98] 0
        failing := [none, some Faulty.readFailed] }
    let calls : List Call := [.readByte, .readByte, .readByte, .readByte]
    Shows d ⟨[97, 13, 10, 98], 0⟩ ∧
      ∃ c', (withSettings { bufferSize := 2, textPolicy := .translate }).attach
        (⟨d, 0⟩ : Tallied Flaky) { read := true } = .ok c' ∧
          (c'.performAll calls).2.error = none ∧
          Call.takenAll calls (c'.performAll calls).1 = [97, 13, 10, 98] ∧
          ¬ Call.takenAll calls (c'.performAll calls).1 <+: collapse [97, 13, 10, 98] := by
  intro d calls
  have hs : Shows d ⟨[97, 13, 10, 98], 0⟩ := by
    change d.cursor.file = _
    cbv
  have hcollapse : collapse [97, 13, 10, 98] = [97, 10, 98] := by cbv
  have hrun : ((withSettings { bufferSize := 2, textPolicy := .translate }).attach
      (⟨d, 0⟩ : Tallied Flaky) { read := true }).toOption.map (fun c' =>
        ((c'.performAll calls).2.error, Call.takenAll calls (c'.performAll calls).1)) =
      some (none, [97, 13, 10, 98]) := by
    unfold d calls
    cbv
  obtain ⟨c', hattach⟩ : ∃ c', (withSettings { bufferSize := 2, textPolicy := .translate }).attach
      (⟨d, 0⟩ : Tallied Flaky) { read := true } = .ok c' := ⟨_, rfl⟩
  rw [hattach] at hrun
  obtain ⟨herror, htaken⟩ := Prod.mk.inj (Option.some.inj hrun)
  refine ⟨hs, c', hattach, herror, htaken, ?_⟩
  rw [htaken, hcollapse]
  decide

end Buffered

end ByteChannel
