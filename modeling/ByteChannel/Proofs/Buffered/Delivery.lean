import Mathlib
import ByteChannel.Proofs.Buffered.Outward
import ByteChannel.Proofs.Buffered.RoundTrip

/-!
# No output is lost unseen

A write-only channel passes on what it counted as written, in order and once, over any device. Bytes
that do not arrive show in the latched failure or in a flush that fails. A caller who looks only at
whether the calls of the failing face succeed may miss them: a write that counts a part of its
source hides the failure behind the count.
-/

namespace ByteChannel

namespace Call

def counted : Call → Answer → Bytes
  | write src, .count k => src.take k
  | writeByte b, .flag accepted => if accepted then [b] else []
  | overflow b, .flag accepted => if accepted then [b] else []
  | _, _ => []

def countedAll : List Call → List Answer → Bytes
  | call :: calls, a :: as => call.counted a ++ countedAll calls as
  | _, _ => []

end Call

def Answer.flushFailed : Answer → Bool
  | outcome (.error (.flushFailed _)) => true
  | position (.error (.flushFailed _)) => true
  | _ => false

namespace Buffered

variable {σ : Type} [Device σ] [Receiver σ] {c c' : Buffered σ}

theorem Outward.perform (h : Outward c) (call : Call) (hcall : call.isOutput = true) :
    Follows c (c.perform call).2 (call.counted (c.perform call).1) ∧
      ((c.perform call).1.flushFailed = false → (c.perform call).2.error = none →
        (c.perform call).2.trail = c.trail ++ call.counted (c.perform call).1 ∧
          c.error = none) := by
  cases call with
  | write src =>
    obtain ⟨k, c', hr, _, hm⟩ := h.write src
    simp only [Buffered.perform, hr]
    exact ⟨hm.toFollows, fun _ => hm.of_error_eq_none⟩
  | writeByte b =>
    obtain ⟨ok, c', hr, hm⟩ := h.writeByte b
    simp only [Buffered.perform, hr]
    exact ⟨hm.toFollows, fun _ => hm.of_error_eq_none⟩
  | overflow b =>
    obtain ⟨ok, c', hr, hm⟩ := h.overflow b
    simp only [Buffered.perform, hr]
    exact ⟨hm.toFollows, fun _ => hm.of_error_eq_none⟩
  | flush =>
    obtain ⟨c', ⟨hr, _, hm⟩ | ⟨m, hr, hf⟩⟩ := h.flush
    · simp only [Buffered.perform, hr]
      exact ⟨hm.toFollows, fun _ => hm.of_error_eq_none⟩
    · simp only [Buffered.perform, hr]
      exact ⟨hf, fun hn => by cases hn⟩
  | install buffer =>
    obtain ⟨c', ⟨hr, hm⟩ | ⟨m, hr, hf⟩⟩ := h.installBuffer buffer
    · simp only [Buffered.perform, hr]
      exact ⟨hm.toFollows, fun _ => hm.of_error_eq_none⟩
    · simp only [Buffered.perform, hr]
      exact ⟨hf, fun hn => by cases hn⟩
  | resize n =>
    obtain ⟨c', ⟨hr, hm⟩ | ⟨m, hr, hf⟩⟩ := h.installBuffer (List.replicate n 0)
    · simp only [Buffered.perform, resizeBuffer, hr]
      exact ⟨hm.toFollows, fun _ => hm.of_error_eq_none⟩
    · simp only [Buffered.perform, resizeBuffer, hr]
      exact ⟨hf, fun hn => by cases hn⟩
  | _ => cases hcall

/-- A failure stays latched until a flush reports it, so that the end of a run tells of all of it.
-/
theorem Outward.performAll (h : Outward c) (calls : List Call)
    (hcalls : ∀ call ∈ calls, call.isOutput = true) :
    let run := c.performAll calls
    Follows c run.2 (Call.countedAll calls run.1) ∧
      (run.1.any Answer.flushFailed = false → run.2.error = none →
        run.2.trail = c.trail ++ Call.countedAll calls run.1 ∧ c.error = none) := by
  induction calls generalizing c with
  | nil =>
    have hc : Follows c c [] := (Moves.of_unsent h rfl (by simp) rfl).toFollows
    exact ⟨hc, fun _ he => ⟨(List.append_nil _).symm, he⟩⟩
  | cons call calls ih =>
    obtain ⟨hf, hsettled⟩ := h.perform call (hcalls call List.mem_cons_self)
    obtain ⟨hfs, hsettledAll⟩ :=
      ih hf.outward fun call' hcall' => hcalls call' (List.mem_cons_of_mem call hcall')
    refine ⟨hf.trans hfs, fun hseen he => ?_⟩
    obtain ⟨hone, hmore⟩ := Bool.or_eq_false_iff.1 hseen
    obtain ⟨htrail, he₁⟩ := hsettledAll hmore he
    obtain ⟨htrail₁, he₀⟩ := hsettled hone he₁
    refine ⟨?_, he₀⟩
    rw [htrail₁, List.append_assoc] at htrail
    exact htrail

/-- Over any device, what a write-only channel passes on is a subsequence of what it counted as
written. Unless a call said that output was lost or a failure is latched at the end, all of it has
arrived once a flush or the closing succeeds. -/
theorem counted_output_arrives {d : σ} {mode : OpenMode} (hattach : c.attach d mode = .ok c')
    (hwrite : mode.isWritable = true) (hread : mode.isReadable = false)
    (hplain : mode.binary = true ∨ c.settings.textPolicy.translates = false) (calls : List Call)
    (hcalls : ∀ call ∈ calls, call.isOutput = true) :
    let run := c'.performAll calls
    let counted := Call.countedAll calls run.1
    (∃ d' got, run.2.device = some d' ∧ Receiver.received d' = Receiver.received d ++ got ∧
      got.Sublist counted) ∧
    ∃ d' got, run.2.close.2.2 = some d' ∧ Receiver.received d' = Receiver.received d ++ got ∧
      got.Sublist counted ∧
      (run.1.any Answer.flushFailed = false → run.2.isFailed = false →
        (run.2.close.1 = .ok () → got = counted) ∧
        (run.2.flush.1 = .ok () → ∃ d', run.2.flush.2.device = some d' ∧
          Receiver.received d' = Receiver.received d ++ counted)) := by
  intro run counted
  have htext : (!mode.binary && c.settings.textPolicy.translates) = false := by
    rcases hplain with hp | hp <;> simp [hp]
  obtain ⟨hout, hstart, hempty⟩ := Outward.of_attach hattach hwrite hread htext
  have htrail : c'.trail = Receiver.received d := (received_of_pending hempty).symm.trans hstart
  obtain ⟨hf, hsettled⟩ := hout.performAll calls hcalls
  have hgot {bs : Bytes} (hp : c'.received <+: bs) (hs : bs.Sublist (c'.trail ++ counted)) :
      ∃ got, bs = Receiver.received d ++ got ∧ got.Sublist counted := by
    obtain ⟨got, hbs⟩ := hp
    rw [hstart] at hbs
    rw [htrail, ← hbs] at hs
    exact ⟨got, hbs.symm, (List.append_sublist_append_left _).1 hs⟩
  constructor
  · obtain ⟨d', hd', hr⟩ := hf.outward.device
    obtain ⟨got, hbs, hs⟩ := hgot hf.received_prefix hf.received_sublist
    exact ⟨d', got, hd', hr ▸ hbs, hs⟩
  obtain ⟨d', hd', hp, hs, hok⟩ := hf.outward.close
  obtain ⟨got, hbs, hsub⟩ := hgot (hf.received_prefix.trans hp) (hs.trans hf.trail_sublist)
  refine ⟨d', got, hd', hbs, hsub, fun hseen hquiet => ?_⟩
  obtain ⟨hall, _⟩ := hsettled hseen (isFailed_eq_false.1 hquiet)
  rw [htrail] at hall
  constructor
  · intro hclosed
    have heq := hok hclosed
    rw [hbs, hall] at heq
    exact List.append_cancel_left heq
  · intro hflushed
    obtain ⟨d₁, hd₁, hr₁⟩ := hf.outward.received_flush hflushed
    exact ⟨d₁, hd₁, hr₁.trans hall⟩

/-- Two bytes of buffer, and then none, over a device that takes a byte, is interrupted and takes a
byte more at first. -/
theorem counted_output_arrives_cut :
    let d : Recorder Scheduled := { device := ⟨[.ok 1, .error Faulty.interruption, .ok 1]⟩ }
    let mode : OpenMode := { write := true, binary := true }
    let calls : List Call := [.write [1, 2, 3], .writeByte 4, .flush, .resize 0, .overflow 5]
    ∃ c', (withSettings { bufferSize := 2 }).attach d mode = .ok c' ∧
      ∃ d', (c'.performAll calls).2.close.2.2 = some d' ∧ d'.received = [1, 2, 3, 4, 5] := by
  intro d mode calls
  have hcalls : ∀ call ∈ calls, call.isOutput = true := by decide
  have hattach := (rfl : (withSettings { bufferSize := 2 }).attach d mode = .ok _)
  obtain ⟨_, d', got, hd', hgot, _, hall⟩ :=
    counted_output_arrives hattach rfl rfl (.inl rfl) calls hcalls
  obtain ⟨hclosed, _⟩ := hall (by cbv) (by cbv)
  refine ⟨_, hattach, d', hd', ?_⟩
  rw [hclosed (by cbv)] at hgot
  exact hgot.trans (by cbv)

end Buffered

/-! ## The failing face -/

inductive Push
  | write (src : Bytes)
  | flush

namespace Buffered

variable {σ : Type} [Device σ] {c c' : Buffered σ}

def push (c : Buffered σ) : Push → Except IoError Bytes × Buffered σ
  | .write src =>
    let r := c.tryWrite src
    (r.1.map src.take, r.2)
  | .flush =>
    let r := c.tryFlush
    (r.1.map fun _ => [], r.2)

def pushAll (c : Buffered σ) : List Push → Except IoError Bytes × Buffered σ
  | [] => (.ok [], c)
  | call :: calls =>
    let r := c.push call
    match r.1 with
    | .error e => (.error e, r.2)
    | .ok bs =>
      let more := r.2.pushAll calls
      (more.1.map (bs ++ ·), more.2)

variable [Receiver σ] {bs : Bytes}

/-- A write that counts anything may have latched a failure, but has not cleared one. -/
theorem Outward.push (h : Outward c) {call : Push} (hok : c.push call = (.ok bs, c')) :
    (∃ whole, Moves c c' bs whole) ∧ (call = .flush → c'.pending = []) := by
  cases call with
  | write src =>
    obtain ⟨k, c₁, hr, _, hm⟩ := h.write src
    simp only [Buffered.push, Buffered.tryWrite, h.isOpen, Bool.true_eq_false, if_false, hr] at hok
    by_cases hz : k = 0 ∧ src ≠ []
    · rw [if_pos hz] at hok
      cases hok
    · rw [if_neg hz] at hok
      cases hok
      exact ⟨⟨_, hm⟩, fun hn => by cases hn⟩
  | flush =>
    obtain ⟨c₁, ⟨hr, hp, hm⟩ | ⟨m, hr, _⟩⟩ := h.flush
    · simp only [Buffered.push, Buffered.tryFlush, hr] at hok
      cases hok
      exact ⟨⟨_, hm⟩, fun _ => hp⟩
    · simp only [Buffered.push, Buffered.tryFlush, hr] at hok
      cases hok

theorem Outward.pushAll (h : Outward c) {calls : List Push}
    (hok : c.pushAll (calls ++ [.flush]) = (.ok bs, c')) :
    (∃ whole, Moves c c' bs whole) ∧ c'.pending = [] := by
  induction calls generalizing c c' bs with
  | nil =>
    rcases hr : c.push .flush with ⟨_ | bs₁, c₁⟩
    · simp only [List.nil_append, Buffered.pushAll, hr] at hok
      cases hok
    · obtain ⟨hm, hp⟩ := h.push hr
      simp only [List.nil_append, Buffered.pushAll, hr] at hok
      cases hok
      simp only [List.append_nil]
      exact ⟨hm, hp rfl⟩
  | cons call calls ih =>
    rcases hr : c.push call with ⟨_ | bs₁, c₁⟩
    · simp only [List.cons_append, Buffered.pushAll, hr] at hok
      cases hok
    · obtain ⟨⟨whole, hm⟩, _⟩ := h.push hr
      rcases hr' : c₁.pushAll (calls ++ [.flush]) with ⟨_ | bs₂, c₂⟩
      · simp only [List.cons_append, Buffered.pushAll, hr, hr'] at hok
        cases hok
      · obtain ⟨⟨whole', hm'⟩, hp⟩ := ih hm.outward hr'
        simp only [List.cons_append, Buffered.pushAll, hr, hr'] at hok
        cases hok
        exact ⟨⟨_, hm.trans hm'⟩, hp⟩

/-- Where every call of the failing face succeeds, and a flush at last, the bytes that arrived are a
subsequence of those the writes counted. They are all of them if no failure is latched. -/
theorem counted_pushes_arrive {d : σ} {mode : OpenMode} {c'' : Buffered σ} {counted : Bytes}
    (hattach : c.attach d mode = .ok c') (hwrite : mode.isWritable = true)
    (hread : mode.isReadable = false)
    (hplain : mode.binary = true ∨ c.settings.textPolicy.translates = false) (calls : List Push)
    (hok : c'.pushAll (calls ++ [.flush]) = (.ok counted, c'')) :
    ∃ d' got, c''.device = some d' ∧ Receiver.received d' = Receiver.received d ++ got ∧
      got.Sublist counted ∧ (c''.isFailed = false → got = counted) := by
  have htext : (!mode.binary && c.settings.textPolicy.translates) = false := by
    rcases hplain with hp | hp <;> simp [hp]
  obtain ⟨hout, hstart, hempty⟩ := Outward.of_attach hattach hwrite hread htext
  obtain ⟨⟨whole, hm⟩, hp⟩ := hout.pushAll hok
  obtain ⟨d', hd', hr⟩ := hm.outward.device
  obtain ⟨got, hgot⟩ := hm.received_prefix
  have hs := hm.received_sublist
  rw [← received_of_pending hempty, ← hgot] at hs
  rw [hstart, hr] at hgot
  refine ⟨d', got, hd', hgot.symm, (List.append_sublist_append_left _).1 hs, fun hquiet => ?_⟩
  obtain ⟨hall, _⟩ := hm.of_error_eq_none (isFailed_eq_false.1 hquiet)
  rw [← received_of_pending hp, ← received_of_pending hempty, hr, ← hgot, hstart] at hall
  exact List.append_cancel_left hall

theorem counted_pushes_arrive_cut :
    let d : Recorder Scheduled := { device := ⟨[.ok 1, .error Faulty.interruption, .ok 1]⟩ }
    let mode : OpenMode := { write := true, binary := true }
    let calls : List Push := [.write [97], .write [98, 99], .flush]
    ∃ c', (withSettings { bufferSize := 2 }).attach d mode = .ok c' ∧
      ∃ d', (c'.pushAll calls).2.device = some d' ∧ d'.received = [97, 98, 99] := by
  intro d mode calls
  have hattach := (rfl : (withSettings { bufferSize := 2 }).attach d mode = .ok _)
  have hok {c'} (h : (withSettings { bufferSize := 2 }).attach d mode = .ok c') :
      c'.pushAll calls = (.ok [97, 98, 99], (c'.pushAll calls).2) := by
    cases (hattach.symm.trans h : Except.ok _ = _)
    exact Prod.ext (by cbv) rfl
  obtain ⟨d', got, hd', hgot, _, hall⟩ :=
    counted_pushes_arrive hattach rfl rfl (.inl rfl) [.write [97], .write [98, 99]] (hok hattach)
  refine ⟨_, hattach, d', hd', ?_⟩
  rw [hall (by cbv)] at hgot
  exact hgot.trans rfl

/-- Success of all calls is not enough: the device fails once while the second write makes room, and
both bytes that the two writes count are gone. -/
theorem counted_pushes_lost :
    let d : Recorder Scheduled := { device := ⟨[.error Faulty.diskFull]⟩ }
    let mode : OpenMode := { write := true, binary := true }
    let calls : List Push := [.write [97], .write [98, 99], .flush]
    ∃ c', (withSettings { bufferSize := 2 }).attach d mode = .ok c' ∧
      (c'.pushAll calls).1 = .ok [97, 98] ∧
        ∃ d', (c'.pushAll calls).2.device = some d' ∧ d'.received = [] := by
  intro d mode calls
  exact ⟨_, rfl, by cbv, _, by cbv, by cbv⟩

end Buffered

end ByteChannel
