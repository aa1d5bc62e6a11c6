import Mathlib
import ByteChannel.Proofs.Buffered.Streams
import ByteChannel.Proofs.Text.Paired

/-!
# Where a text channel stands

Over a device where every line feed ends a pair, the position of a text channel is that of the text
taken so far, with one byte more for each of its line feeds. To ask for it or to flush moves the
device there and changes nothing in what is to come, and a seek to a position that was told goes on
with what came after it.
-/

namespace ByteChannel

open Text

namespace Call

def isReading : Call → Bool
  | flush | tell => true
  | call => call.isInput

/-- Whether an answer is right for a channel that stands in `text` behind `taken`. -/
def Tracks (text taken : Bytes) : Call → Answer → Prop
  | flush, .outcome r => r = .ok ()
  | tell, .position r => r = .ok (taken.length + countNewlines taken)
  | call, a => call.Delivers (text.drop taken.length) a

def TracksAll (text taken : Bytes) : List Call → List Answer → Prop
  | call :: calls, a :: as =>
    call.Tracks text taken a ∧ TracksAll text (taken ++ call.taken a) calls as
  | [], [] => True
  | _, _ => False

end Call

namespace Buffered

open Reliable

variable {σ : Type} [Device σ] [Reliable σ] {c c' : Buffered σ} {mode : OpenMode}
  {text taken front rest u u' bs : Bytes} {g' : File}

/-- The file of a text, with its position behind the front of it. -/
def fileBehind (text front : Bytes) : File := ⟨expand text, (expand front).length⟩

@[simp] theorem bytes_fileBehind (text front : Bytes) :
    (fileBehind text front).bytes = expand text := rfl

@[simp] theorem pos_fileBehind (text front : Bytes) :
    (fileBehind text front).pos = (expand front).length := rfl

theorem rest_fileBehind (front rest : Bytes) :
    (fileBehind (front ++ rest) front).rest = expand rest := by
  rw [File.rest, fileBehind, expand_append, List.drop_left]

/-- A text channel that stands in `text` behind `taken`, wherever its device stands. -/
def Placed (mode : OpenMode) (c : Buffered σ) (text taken : Bytes) : Prop :=
  ∃ u rest, text = taken ++ u ++ rest ∧ Stands mode true c u (fileBehind text (taken ++ u))

namespace Placed

theorem of_held (h : Held mode true c [] [] (fileBehind text front)) (hf : front <+: text) :
    Placed mode c text front := by
  obtain ⟨rest, rfl⟩ := hf
  refine ⟨[], rest, by rw [List.append_nil], ?_⟩
  rw [List.append_nil]
  exact .of_held h

theorem taken_prefix (h : Placed mode c text taken) : taken <+: text := by
  obtain ⟨u, rest, rfl, _⟩ := h
  rw [List.append_assoc]
  exact List.prefix_append _ _

/-- What the device moves over in a paired file is the expanded form of what comes in. -/
theorem take (hc' : Stands mode true c' u' g')
    (ht : Taken true u (fileBehind (taken ++ u ++ rest) (taken ++ u)) bs u' g') :
    Placed mode c' (taken ++ u ++ rest) (taken ++ bs) := by
  obtain ⟨k, hk, rfl, hcoming, hcut⟩ := ht
  have hw := Taken.decoded_rest hcoming hcut
  rw [rest_fileBehind] at hk hcut hw
  -- the device stopped between line ends, so both parts of what is left are expanded forms
  have hsplit := (List.take_append_drop k (expand rest)).symm
  have hwhole : Whole ((expand rest).take k) ((expand rest).drop k) := by
    rw [Whole, List.take_append_drop]
    exact hw
  have hfront := expand_collapse_of_whole hsplit hwhole
  simp only [decoded_true, collapse_expand] at hcut hw
  generalize collapse ((expand rest).take k) = w at hcut hfront hw
  generalize collapse ((expand rest).drop k) = w' at hw
  have hk' : (expand w).length = k := by rw [hfront, List.length_take_of_le hk]
  have htext : taken ++ u ++ w = taken ++ bs ++ u' := by
    rw [List.append_assoc, hcut, ← List.append_assoc]
  have hfile : (fileBehind (taken ++ u ++ rest) (taken ++ u)).advance k =
      fileBehind (taken ++ u ++ rest) (taken ++ bs ++ u') := by
    rw [fileBehind, fileBehind, File.advance, ← htext, expand_append (taken ++ u) w,
      List.length_append, hk']
  refine ⟨u', w', ?_, hfile ▸ hc'⟩
  rw [hw, ← List.append_assoc, htext]

theorem rewinds (h : Placed mode c text taken) (hlen : (expand text).length ≤ top σ) :
    ∃ u, Stands mode true c u (fileBehind text (taken ++ u)) ∧
      Rewinds σ true u (fileBehind text (taken ++ u)) ∧
      (fileBehind text (taken ++ u)).rewound true u = fileBehind text taken := by
  obtain ⟨u, rest, rfl, hst⟩ := h
  refine ⟨u, hst, fun _ => ⟨?_, Nat.le_trans ?_ hlen⟩, ?_⟩
  · rw [encoded_true, pos_fileBehind, expand_append, List.length_append]
    exact Nat.le_add_left _ _
  · rw [pos_fileBehind, expand_append (taken ++ u), List.length_append]
    exact Nat.le_add_right _ _
  · rw [File.rewound, File.back, fileBehind, fileBehind, encoded_true, expand_append taken u,
      List.length_append, Nat.add_sub_cancel]

theorem flush (h : Placed mode c text taken) (hlen : (expand text).length ≤ top σ) :
    ∃ c', c.flush = (.ok (), c') ∧ Held mode true c' [] [] (fileBehind text taken) := by
  obtain ⟨u, hst, hback, hrewound⟩ := h.rewinds hlen
  obtain ⟨c', hr, hc'⟩ := hst.flush hback fun _ => hlen
  exact ⟨c', hr, hrewound ▸ hc'⟩

theorem seek (h : Placed mode c text taken) (hlen : (expand text).length ≤ top σ) {o : Origin}
    (hfront : front <+: text)
    (ho : o.target (expand taken).length (expand text).length = ((expand front).length : Nat)) :
    ∃ c', c.seek o = (.ok (expand front).length, c') ∧
      Held mode true c' [] [] (fileBehind text front) := by
  obtain ⟨u, hst, hback, hrewound⟩ := h.rewinds hlen
  have htop : (expand front).length ≤ top σ := by
    obtain ⟨rest, rfl⟩ := hfront
    rw [expand_append, List.length_append] at hlen
    exact Nat.le_trans (Nat.le_add_right _ _) hlen
  have hseek := hst.seek hback (fun _ => hlen) o
  rw [hrewound, pos_fileBehind, bytes_fileBehind,
    (Origin.targetWithin?_eq_some_iff _ _ _ _ _).2 ⟨ho, htop⟩] at hseek
  exact hseek

theorem tell (h : Placed mode c text taken) (hlen : (expand text).length ≤ top σ) :
    ∃ c', c.tell = (.ok (expand taken).length, c') ∧
      Held mode true c' [] [] (fileBehind text taken) :=
  h.seek hlen h.taken_prefix (Int.add_zero _)

/-- Every call answers as the text does where the channel stands, and moves it on over what is
taken. -/
theorem perform (h : Placed mode c text taken) (hlen : (expand text).length ≤ top σ)
    (hr : mode.isReadable = true) (call : Call) (hcall : call.isReading = true) :
    call.Tracks text taken (c.perform call).1 ∧
      Placed mode (c.perform call).2 text (taken ++ call.taken (c.perform call).1) := by
  have hinput (hi : call.isInput = true) :
      call.Delivers (text.drop taken.length) (c.perform call).1 ∧
        Placed mode (c.perform call).2 text (taken ++ call.taken (c.perform call).1) := by
    obtain ⟨u, rest, rfl, hst⟩ := h
    obtain ⟨hd, u', g', hc', ht⟩ := hst.input hr (fun _ => hlen) call hi
    rw [File.coming, rest_fileBehind, decoded_true, collapse_expand] at hd
    rw [List.append_assoc, List.drop_left]
    exact ⟨hd, List.append_assoc taken u rest ▸ take hc' ht⟩
  cases call with
  | flush =>
    obtain ⟨c', hflush, hc'⟩ := h.flush hlen
    simp only [Buffered.perform, hflush]
    exact ⟨rfl, (List.append_nil taken).symm ▸ of_held hc' h.taken_prefix⟩
  | tell =>
    obtain ⟨c', htell, hc'⟩ := h.tell hlen
    simp only [Buffered.perform, htell]
    rw [length_expand]
    exact ⟨rfl, (List.append_nil taken).symm ▸ of_held hc' h.taken_prefix⟩
  | read n => exact hinput rfl
  | readByte => exact hinput rfl
  | peek => exact hinput rfl
  | fill n => exact hinput rfl
  | _ => cases hcall

theorem performAll (h : Placed mode c text taken) (hlen : (expand text).length ≤ top σ)
    (hr : mode.isReadable = true) (calls : List Call)
    (hcalls : ∀ call ∈ calls, call.isReading = true) :
    Call.TracksAll text taken calls (c.performAll calls).1 ∧
      Placed mode (c.performAll calls).2 text
        (taken ++ Call.takenAll calls (c.performAll calls).1) := by
  induction calls generalizing c taken with
  | nil => exact ⟨trivial, (List.append_nil taken).symm ▸ h⟩
  | cons call calls ih =>
    obtain ⟨ht, hc⟩ := h.perform hlen hr call (hcalls call List.mem_cons_self)
    obtain ⟨hall, hend⟩ := ih hc fun call' hcall' => hcalls call' (List.mem_cons_of_mem call hcall')
    rw [List.append_assoc] at hend
    exact ⟨⟨ht, hall⟩, hend⟩

/-- Seeks to told positions may stand between the calls. -/
theorem wander (h : Placed mode c text taken) (hlen : (expand text).length ≤ top σ)
    (hr : mode.isReadable = true) (calls : List Call)
    (hcalls : ∀ call ∈ calls, call.isReading = true ∨
      ∃ front, front <+: text ∧ call = .seek (.start (front.length + countNewlines front))) :
    ∃ taken', Placed mode (c.performAll calls).2 text taken' := by
  induction calls generalizing c taken with
  | nil => exact ⟨taken, h⟩
  | cons call calls ih =>
    have hmore := fun call' hcall' => hcalls call' (List.mem_cons_of_mem call hcall')
    rcases hcalls call List.mem_cons_self with hcall | ⟨front, hfront, rfl⟩
    · exact ih (h.perform hlen hr call hcall).2 hmore
    · obtain ⟨c', hseek, hc'⟩ := h.seek hlen (o := .start (expand front).length) hfront rfl
      rw [length_expand] at hseek
      have hthere : Placed mode (c.perform (.seek (.start (front.length + countNewlines front)))).2
          text front := by
        simp only [Buffered.perform, hseek]
        exact of_held hc' hfront
      exact ih hthere hmore

end Placed

/-- Over a file where every line feed ends a pair, a text channel tells the length of what was taken
with the number of its line feeds, and a flush or the question leaves the device there. Neither
changes the bytes that come later, and after a seek to a position that was told, whatever was called
in between, those come that came then. -/
theorem text_positions_exact {d : σ} {f : File} (hclosed : c.isOpen = false) (hs : Shows d f)
    (hpaired : Paired f.bytes) (hlen : f.bytes.length ≤ top σ) (hread : mode.isReadable = true)
    (hstart : (f.opened mode).pos = 0) (hbinary : mode.binary = false)
    (hpolicy : c.settings.textPolicy.translates = true) (calls : List Call)
    (hcalls : ∀ call ∈ calls, call.isReading = true) :
    ∃ c', c.attach d mode = .ok c' ∧
      let text := collapse f.bytes
      let run := c'.performAll calls
      let taken := Call.takenAll calls run.1
      let told := taken.length + countNewlines taken
      Call.TracksAll text [] calls run.1 ∧
      (∃ c₁ d₁, run.2.flush = (.ok (), c₁) ∧ c₁.device = some d₁ ∧ Shows d₁ ⟨f.bytes, told⟩) ∧
      (∃ c₁ d₁, run.2.tell = (.ok told, c₁) ∧ c₁.device = some d₁ ∧ Shows d₁ ⟨f.bytes, told⟩) ∧
      ∀ between later : List Call, (∀ call ∈ between, call.isReading = true ∨
          ∃ front, front <+: text ∧ call = .seek (.start (front.length + countNewlines front))) →
        (∀ call ∈ later, call.isReading = true) →
        ∃ c₁, (run.2.tell.2.performAll between).2.seek (.start told) = (.ok told, c₁) ∧
          Call.TracksAll text taken later (c₁.performAll later).1 := by
  obtain ⟨c', hattach, hc'⟩ := attach_held hclosed hs mode fun _ => hlen
  have htext : (!mode.binary && c.settings.textPolicy.translates) = true := by
    simp [hbinary, hpolicy]
  have hbytes := expand_collapse hpaired
  have hfile : f.opened mode = fileBehind (collapse f.bytes) [] := by
    have hb : (f.opened mode).bytes = f.bytes := by
      unfold File.opened
      split <;> rfl
    rw [fileBehind, hbytes, ← hb]
    cases hf : f.opened mode with
    | mk bytes pos =>
      rw [hf] at hstart
      cases hstart
      rfl
  rw [htext, hfile] at hc'
  have hlen' : (expand (collapse f.bytes)).length ≤ top σ := hbytes.symm ▸ hlen
  obtain ⟨hall, hend⟩ := (Placed.of_held hc' List.nil_prefix).performAll hlen' hread calls hcalls
  refine ⟨c', hattach, hall, ?_, ?_, ?_⟩
  · obtain ⟨c₁, hflush, hc₁⟩ := hend.flush hlen'
    obtain ⟨d₁, hd₁, hs₁⟩ := hc₁.shows
    refine ⟨c₁, d₁, hflush, hd₁, ?_⟩
    rwa [fileBehind, hbytes, length_expand, List.nil_append] at hs₁
  · obtain ⟨c₁, htell, hc₁⟩ := hend.tell hlen'
    obtain ⟨d₁, hd₁, hs₁⟩ := hc₁.shows
    rw [length_expand] at htell
    refine ⟨c₁, d₁, htell, hd₁, ?_⟩
    rwa [fileBehind, hbytes, length_expand, List.nil_append] at hs₁
  · intro between later hbetween hlater
    obtain ⟨c₁, htell, hc₁⟩ := hend.tell hlen'
    obtain ⟨taken', hlate⟩ :=
      (Placed.of_held hc₁ hend.taken_prefix).wander hlen' hread between hbetween
    obtain ⟨c₂, hseek, hc₂⟩ :=
      hlate.seek hlen' (o := .start (expand _).length) hend.taken_prefix rfl
    rw [length_expand] at hseek
    rw [htell]
    refine ⟨c₂, hseek, ?_⟩
    exact ((Placed.of_held hc₂ hend.taken_prefix).performAll hlen' hread later hlater).1

/-- Three bytes of buffer over a device that reads single bytes. The position behind the second line
is told, and found again after everything was read and another place sought. -/
theorem text_positions_exact_bytewise :
    let d : Faulty :=
      { cursor := .ofBytes [97, 13, 10, 98, 13, 10, 99] 0
        readChunk := some 1
        interruptPeriod := 2 }
    let mode : OpenMode := { read := true }
    let calls : List Call := [.read 2, .tell, .readByte, .peek, .flush, .fill 1]
    let between : List Call := [.read 9, .seek (.start 3), .tell]
    ∃ c', (withSettings { bufferSize := 3, textPolicy := .translate }).attach d mode = .ok c' ∧
      let asked := (c'.performAll calls).2.tell
      asked.1 = .ok 6 ∧ ∃ c₁, (asked.2.performAll between).2.seek (.start 6) = (.ok 6, c₁) ∧
        c₁.readByte.1 = some 99 := by
  intro d mode calls between
  have hs : Shows d ⟨[97, 13, 10, 98, 13, 10, 99], 0⟩ :=
    ⟨⟨by decide, by decide, rfl, rfl, rfl, rfl⟩, by cbv⟩
  have hpaired : Paired [97, 13, 10, 98, 13, 10, 99] := by decide
  have hread : mode.isReadable = true := rfl
  have hcalls : ∀ call ∈ calls, call.isReading = true := by decide
  obtain ⟨c', hattach, _, _, ⟨c₁, d₁, htell, _⟩, hsought⟩ := text_positions_exact
    (c := withSettings { bufferSize := 3, textPolicy := .translate }) rfl hs hpaired (by decide)
    hread rfl rfl rfl calls hcalls
  cases (hattach.symm.trans rfl : Except.ok c' = _)
  have hplace : [97, 10] <+: collapse [97, 13, 10, 98, 13, 10, 99] := by decide
  obtain ⟨c₂, hseek, hbyte, _⟩ := hsought between [.readByte]
    (List.forall_mem_cons.2 ⟨.inl rfl, List.forall_mem_cons.2 ⟨.inr ⟨_, hplace, by decide⟩,
      List.forall_mem_cons.2 ⟨.inl rfl, by simp⟩⟩⟩) (by decide)
  refine ⟨_, hattach, ?_, c₂, ?_, ?_⟩
  · rw [htell]
    cbv
  · exact (congrArg (fun q => Buffered.seek _ (.start q)) (by cbv)).trans (hseek.trans (by cbv))
  · exact hbyte.trans (by cbv)

end Buffered

end ByteChannel
