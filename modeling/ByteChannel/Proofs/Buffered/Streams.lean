import Mathlib
import ByteChannel.Proofs.Buffered.Input
import ByteChannel.Proofs.Buffered.Session

/-!
# Reading delivers one stream

However a channel is read, the bytes taken are one stream from its start, and what is shown comes
next in it. The end is reported only where it is. For a text channel the stream is the collapsed
form of the bytes that the device shows.
-/

namespace ByteChannel

namespace Call

def isInput : Call → Bool
  | read _ | readByte | peek | fill _ => true
  | _ => false

def taken : Call → Answer → Bytes
  | read _, .bytes bs => bs
  | readByte, .byte b => b.toList
  | fill n, .shown (.ok bs) => bs.take n
  | _, _ => []

def takenAll : List Call → List Answer → Bytes
  | call :: calls, a :: as => call.taken a ++ takenAll calls as
  | _, _ => []

def reportsEnd : Call → Answer → Bool
  | read n, .bytes bs => n != 0 && bs.isEmpty
  | readByte, .byte b => b.isNone
  | peek, .byte b => b.isNone
  | fill _, .shown (.ok bs) => bs.isEmpty
  | _, _ => false

/-- Whether an answer to an input call is the next stretch of a stream. -/
def Delivers (stream : Bytes) : Call → Answer → Prop
  | read n, .bytes bs => bs <+: stream ∧ (bs = [] → n = 0 ∨ stream = [])
  | readByte, .byte b => b = stream.head?
  | peek, .byte b => b = stream.head?
  | fill _, .shown r => ∃ bs, r = .ok bs ∧ bs <+: stream ∧ (bs = [] → stream = [])
  | _, _ => False

/-- Each answer goes on where the bytes taken before it end. -/
def DeliversAll (stream : Bytes) : List Call → List Answer → Prop
  | call :: calls, a :: as =>
    Delivers stream call a ∧ DeliversAll (stream.drop (call.taken a).length) calls as
  | [], [] => True
  | _, _ => False

theorem Delivers.taken_prefix {stream : Bytes} {call : Call} {a : Answer}
    (h : Delivers stream call a) : call.taken a <+: stream := by
  cases call with
  | read n =>
    cases a with
    | bytes bs => exact h.1
    | _ => exact List.nil_prefix
  | readByte =>
    cases a with
    | byte b =>
      cases h
      cases stream with
      | nil => exact List.nil_prefix
      | cons b bs => exact ⟨bs, rfl⟩
    | _ => exact List.nil_prefix
  | fill n =>
    cases a with
    | shown r =>
      obtain ⟨bs, rfl, hp, _⟩ := h
      exact (List.take_prefix n bs).trans hp
    | _ => exact List.nil_prefix
  | _ => exact List.nil_prefix

theorem DeliversAll.takenAll_prefix {stream : Bytes} {calls : List Call} {as : List Answer}
    (h : DeliversAll stream calls as) : takenAll calls as <+: stream := by
  induction calls generalizing stream as with
  | nil => exact List.nil_prefix
  | cons call calls ih =>
    cases as with
    | nil => exact List.nil_prefix
    | cons a as =>
      obtain ⟨ha, has⟩ := h
      obtain ⟨rest, hrest⟩ := ha.taken_prefix
      have hp := ih has
      rw [← hrest, List.drop_left] at hp
      rw [← hrest]
      exact List.prefix_append_right_inj _ |>.2 hp

theorem Delivers.eq_nil_of_reportsEnd {stream : Bytes} {call : Call} {a : Answer}
    (h : Delivers stream call a) (he : call.reportsEnd a = true) : stream = [] := by
  cases call with
  | read n =>
    cases a with
    | bytes bs =>
      simp only [reportsEnd, Bool.and_eq_true, bne_iff_ne, List.isEmpty_iff] at he
      exact (h.2 he.2).resolve_left he.1
    | _ => cases he
  | readByte =>
    cases a with
    | byte b =>
      cases h
      exact List.head?_eq_none_iff.1 (Option.isNone_iff_eq_none.1 he)
    | _ => cases he
  | peek =>
    cases a with
    | byte b =>
      cases h
      exact List.head?_eq_none_iff.1 (Option.isNone_iff_eq_none.1 he)
    | _ => cases he
  | fill n =>
    cases a with
    | shown r =>
      obtain ⟨bs, rfl, _, hnil⟩ := h
      exact hnil (List.isEmpty_iff.1 he)
    | _ => cases he
  | _ => cases he

/-- The end is reported only after everything was taken. -/
theorem DeliversAll.takenAll_of_reportsEnd {stream : Bytes} {calls : List Call} {as : List Answer}
    (h : DeliversAll stream calls as)
    (he : ∃ r ∈ calls.zip as, r.1.reportsEnd r.2 = true) : takenAll calls as = stream := by
  induction calls generalizing stream as with
  | nil =>
    obtain ⟨r, hr, _⟩ := he
    cases hr
  | cons call calls ih =>
    cases as with
    | nil =>
      obtain ⟨r, hr, _⟩ := he
      cases hr
    | cons a as =>
      obtain ⟨r, hr, hend⟩ := he
      rcases List.mem_cons.1 hr with rfl | hr
      · have hs := h.1.eq_nil_of_reportsEnd hend
        rw [hs] at h ⊢
        exact List.prefix_nil.1 h.takenAll_prefix
      · obtain ⟨ha, has⟩ := h
        obtain ⟨rest, hrest⟩ := ha.taken_prefix
        have hall := ih has ⟨r, hr, hend⟩
        rw [← hrest, List.drop_left] at hall
        rw [← hrest, takenAll, hall]

end Call

namespace Buffered

open Reliable Text

variable {σ : Type} [Device σ] [Reliable σ] {c : Buffered σ} {mode : OpenMode} {text : Bool}
  {u u' bs stream : Bytes} {g g' : File}

/-- An input call delivers what is to come, and what it takes is taken from there. -/
theorem Stands.input (h : Stands mode text c u g) (hr : mode.isReadable = true)
    (hlen : Reads σ mode text g) (call : Call) (hcall : call.isInput = true) :
    call.Delivers (g.coming text u) (c.perform call).1 ∧
      ∃ u' g', Stands mode text (c.perform call).2 u' g' ∧
        Taken text u g (call.taken (c.perform call).1) u' g' := by
  cases call with
  | read n =>
    obtain ⟨bs, c', u', g', hread, hc', ht, hnil, _⟩ := h.read hr n hlen
    have hp : bs <+: g.coming text u := by
      obtain ⟨k, _, _, hcoming, _⟩ := ht
      exact ⟨_, hcoming.symm⟩
    simp only [Buffered.perform, hread]
    exact ⟨⟨hp, hnil⟩, u', g', hc', ht⟩
  | readByte =>
    obtain ⟨c', u', g', hread, hc', ht⟩ := h.readByte hr hlen
    simp only [Buffered.perform, hread]
    exact ⟨rfl, u', g', hc', ht⟩
  | peek =>
    obtain ⟨c', u', g', hpeek, hc', ht, he, _⟩ := h.peek hr hlen
    simp only [Buffered.perform, hpeek]
    exact ⟨ht.head?_coming he, u', g', hc', ht⟩
  | fill n =>
    obtain ⟨bs, c', u', g', hfill, hc', hp, hnil, ht⟩ := h.fill hr n hlen
    simp only [Buffered.perform, hfill]
    exact ⟨⟨bs, rfl, hp, hnil⟩, u', g', hc', ht⟩
  | _ => cases hcall

/-- A healthy channel where the input to come is `stream`. -/
def Streams (mode : OpenMode) (text : Bool) (c : Buffered σ) (stream : Bytes) : Prop :=
  ∃ u g, Stands mode text c u g ∧ Reads σ mode text g ∧ g.coming text u = stream

namespace Streams

theorem take (hlen : Reads σ mode text g) (hc : Stands mode text c u' g')
    (ht : Taken text u g bs u' g') : Streams mode text c ((g.coming text u).drop bs.length) := by
  refine ⟨u', g', hc, ?_, ?_⟩
  · intro hm
    rw [ht.bytes_eq]
    exact hlen hm
  · obtain ⟨k, _, _, hcoming, _⟩ := ht
    rw [hcoming, List.drop_left]

theorem perform (h : Streams mode text c stream) (hr : mode.isReadable = true) (call : Call)
    (hcall : call.isInput = true) :
    call.Delivers stream (c.perform call).1 ∧
      Streams mode text (c.perform call).2
        (stream.drop (call.taken (c.perform call).1).length) := by
  obtain ⟨u, g, hst, hlen, rfl⟩ := h
  obtain ⟨hd, u', g', hc', ht⟩ := hst.input hr hlen call hcall
  exact ⟨hd, take hlen hc' ht⟩

theorem performAll (h : Streams mode text c stream) (hr : mode.isReadable = true)
    (calls : List Call) (hcalls : ∀ call ∈ calls, call.isInput = true) :
    Call.DeliversAll stream calls (c.performAll calls).1 := by
  induction calls generalizing c stream with
  | nil => trivial
  | cons call calls ih =>
    obtain ⟨hd, hs⟩ := h.perform hr call (hcalls call List.mem_cons_self)
    exact ⟨hd, ih hs fun call' hcall' => hcalls call' (List.mem_cons_of_mem call hcall')⟩

end Streams

theorem attach_streams {c : Buffered σ} {d : σ} {f : File} (hclosed : c.isOpen = false)
    (hs : Shows d f) (hlen : f.bytes.length ≤ top σ) (mode : OpenMode) :
    ∃ c', c.attach d mode = .ok c' ∧
      Streams mode (!mode.binary && c.settings.textPolicy.translates) c'
        (decoded (!mode.binary && c.settings.textPolicy.translates) (f.opened mode).rest) := by
  obtain ⟨c', hattach, hc'⟩ := attach_held hclosed hs mode fun _ => hlen
  refine ⟨c', hattach, [], f.opened mode, .of_held hc', fun _ => ?_, rfl⟩
  unfold File.opened
  by_cases ha : mode.startsAtEnd = true
  · rw [if_pos ha]
    exact hlen
  · rw [if_neg ha]
    exact hlen

/-- A text channel delivers the collapsed form of what its device shows from where the channel was
opened: the bytes taken are a prefix of it, what is shown comes next in it, and an end is reported
only when all of it was taken. -/
theorem text_delivers_collapsed {c : Buffered σ} {d : σ} {f : File} {mode : OpenMode}
    (hclosed : c.isOpen = false) (hs : Shows d f) (hlen : f.bytes.length ≤ top σ)
    (hread : mode.isReadable = true) (hbinary : mode.binary = false)
    (hpolicy : c.settings.textPolicy.translates = true)
    (calls : List Call) (hcalls : ∀ call ∈ calls, call.isInput = true) :
    ∃ c', c.attach d mode = .ok c' ∧
      let stream := collapse (f.opened mode).rest
      let answers := (c'.performAll calls).1
      Call.DeliversAll stream calls answers ∧
        Call.takenAll calls answers <+: stream ∧
        ((∃ r ∈ calls.zip answers, r.1.reportsEnd r.2 = true) →
          Call.takenAll calls answers = stream) := by
  obtain ⟨c', hattach, hstreams⟩ := attach_streams hclosed hs hlen mode
  have htext : (!mode.binary && c.settings.textPolicy.translates) = true := by
    simp [hbinary, hpolicy]
  rw [htext] at hstreams
  have hall := hstreams.performAll hread calls hcalls
  exact ⟨c', hattach, hall, hall.takenAll_prefix, hall.takenAll_of_reportsEnd⟩

/-- No buffer at all, over a device that reads single bytes and is interrupted at every second one.
-/
theorem text_delivers_collapsed_bytewise :
    let d : Faulty :=
      { cursor := .ofBytes [97, 13, 10, 13, 13, 10, 98, 13] 0
        readChunk := some 1
        interruptPeriod := 2 }
    let mode : OpenMode := { read := true }
    let calls : List Call := [.read 2, .peek, .fill 9, .readByte, .read 1, .readByte, .readByte]
    ∃ c', (withSettings { bufferSize := 0, textPolicy := .translate }).attach d mode = .ok c' ∧
      Call.takenAll calls (c'.performAll calls).1 = [97, 10, 13, 10, 98, 13] := by
  intro d mode calls
  have hs : Shows d ⟨[97, 13, 10, 13, 13, 10, 98, 13], 0⟩ :=
    ⟨⟨by decide, by decide, rfl, rfl, rfl, rfl⟩, by cbv⟩
  have hread : mode.isReadable = true := rfl
  have hcalls : ∀ call ∈ calls, call.isInput = true := by decide
  obtain ⟨c', hattach, _, _, hall⟩ := text_delivers_collapsed
    (c := withSettings { bufferSize := 0, textPolicy := .translate }) rfl hs (by decide) hread rfl
    rfl calls hcalls
  cases (hattach.symm.trans rfl : Except.ok c' = _)
  exact ⟨_, hattach, hall ⟨(.readByte, .byte none), List.mem_of_getElem? (i := 6) (by cbv), rfl⟩⟩

end Buffered

end ByteChannel
