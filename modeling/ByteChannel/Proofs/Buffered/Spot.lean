import Mathlib
import ByteChannel.Proofs.Buffered.History
import ByteChannel.Proofs.Buffered.Pushback
import ByteChannel.Proofs.Buffered.Settling

/-!
# How far a sync goes back

What is unread is what was pushed back and then what was read ahead, and a sync moves the device
back over all of it, as if all of it stemmed from the file. So it ends as many bytes before the
first byte that was not consumed as were pushed back. Where that is before the start of the file the
device refuses: then what was read ahead is skipped, and a latched failure is all that tells of it.
-/

namespace ByteChannel

open Reliable Text

/-- What a history of a channel amounts to: the file, with its position at the first byte that was
not consumed, and the bytes pushed back in front of it. -/
structure Spot where
  file : File
  returned : Bytes

namespace Spot

/-- Input is taken from what was pushed back, and then from the file. -/
def take (s : Spot) (n : Nat) : Spot :=
  ⟨s.file.advance (n - s.returned.length), s.returned.drop n⟩

/-- Where a sync ends that finds `ahead` bytes of the file read ahead. -/
def syncPos (s : Spot) (ahead : Nat) : Nat :=
  if s.returned.length ≤ s.file.pos then s.file.pos - s.returned.length else s.file.pos + ahead

def call (s : Spot) (mode : OpenMode) (ahead : Nat) : Call → Answer → Spot
  | .unread b, .flag true => { s with returned := b :: s.returned }
  | call, a =>
    if call.settles mode.isWritable then
      ⟨File.settledBy { s.file with pos := s.syncPos ahead } mode false call a, []⟩
    else s.take (call.taken a).length

variable {σ : Type} [Device σ]

def act (s : Spot) (mode : OpenMode) (c : Buffered σ) : Buffered.Act σ → Spot
  | .call call => s.call mode (c.unreadCount - s.returned.length) call (c.perform call).1
  | .consume n => if (c.consume? n).isSome then s.take (min n c.get.available) else s
  | _ => s

def actAll (s : Spot) (mode : OpenMode) (c : Buffered σ) : List (Buffered.Act σ) → Spot
  | [] => s
  | a :: as => (s.act mode c a).actAll mode (c.act a) as

@[simp] theorem take_zero (s : Spot) : s.take 0 = s := by simp [take]

theorem call_of_not_settles (s : Spot) {mode : OpenMode} {call : Call}
    (hcall : call.settles mode.isWritable = false) {ahead : Nat} {a : Answer}
    (hunread : ∀ b, a = .flag true → call ≠ .unread b) :
    s.call mode ahead call a = s.take (call.taken a).length := by
  unfold Spot.call
  split
  · exact absurd rfl (hunread _ rfl)
  · rw [if_neg (by simp [hcall])]

theorem length_le_call (s : Spot) (mode : OpenMode) (ahead : Nat) (call : Call) (a : Answer) :
    s.file.bytes.length ≤ (s.call mode ahead call a).file.bytes.length := by
  unfold Spot.call
  split
  · exact Nat.le_refl _
  · split
    · exact File.length_le_settledBy { s.file with pos := s.syncPos ahead } mode false call a
    · exact Nat.le_refl _

theorem length_le_act (s : Spot) (mode : OpenMode) (c : Buffered σ) (a : Buffered.Act σ) :
    s.file.bytes.length ≤ (s.act mode c a).file.bytes.length := by
  cases a with
  | call call => exact s.length_le_call mode _ call _
  | consume n =>
    rw [act]
    split <;> exact Nat.le_refl _
  | _ => exact Nat.le_refl _

theorem length_le_actAll (s : Spot) (mode : OpenMode) (c : Buffered σ)
    (acts : List (Buffered.Act σ)) :
    s.file.bytes.length ≤ (s.actAll mode c acts).file.bytes.length := by
  induction acts generalizing s c with
  | nil => exact Nat.le_refl _
  | cons a acts ih => exact Nat.le_trans (s.length_le_act mode c a) (ih _ _)

end Spot

theorem Region.bump_min (r : Region) (n : Nat) : r.bump n = r.bump (min n r.available) := by
  have := r.next_le_limit
  simp only [Region.bump, Region.available, Region.mk.injEq, true_and, and_true]
  omega

namespace Buffered

variable {σ : Type} {c : Buffered σ}

/-! ## Pushing back -/

theorem unread_failing (c : Buffered σ) (e : IoError) (b : UInt8) :
    (c.failing e).unread b = ((c.unread b).1, (c.unread b).2.failing e) := by
  have hno : ((c.failing e).canRead = false ∨ (c.failing e).pushedBack = true ∨
      (c.failing e).put.isCollapsed = false) ↔
        (c.canRead = false ∨ c.pushedBack = true ∨ c.put.isCollapsed = false) := Iff.rfl
  have hget : (c.failing e).get = c.get := rfl
  have hcell : (c.failing e).onCell = c.onCell := rfl
  unfold Buffered.unread
  rw [hget, hcell]
  by_cases hc : c.canRead = false ∨ c.pushedBack = true ∨ c.put.isCollapsed = false
  · rw [if_pos hc, if_pos (hno.2 hc)]
  · rw [if_neg hc, if_neg (hno.not.2 hc)]
    cases c.get.stepBack? <;> cases c.onCell <;> rfl

variable [Device σ] [Reliable σ] {mode : OpenMode} {text : Bool} {u : Bytes} {g : File}

theorem Stands.unread (h : Stands mode text c u g) (hreturn : Returnable c) (b : UInt8) :
    Stands mode text (c.unread b).2 (b :: u) g := by
  obtain ⟨p, f, hc, hg⟩ := h
  have hp := hc.pending_of_collapsed hreturn.put
  have hcoherent := hc.coherent.unread b
  obtain ⟨get, buffer, cell, onCell, heq, hstock⟩ := hreturn.unread hc.coherent b
  rw [heq] at hcoherent ⊢
  refine ⟨p, f, ⟨⟨hc.mode_eq, hc.text_eq, hc.expander, hc.error_eq, hc.shows⟩, hcoherent, ?_, ?_⟩,
    hg⟩
  · rw [hstock, hc.stock_eq]
  · rw [hp, ← List.length_eq_zero_iff, length_pending hcoherent]
    exact Region.consumed_of_isCollapsed hreturn.put

theorem Steady.unread (h : Steady mode text c u g) (hreturn : Returnable c) (b : UInt8) :
    Steady mode text (c.unread b).2 (b :: u) g := by
  have hreturn' : Returnable { c with error := none } :=
    ⟨hreturn.canRead, hreturn.pushedBack, hreturn.put, hreturn.place⟩
  obtain ⟨c₁, heq, hc₁⟩ := of_behind (f := fun c => c.unread b)
    (fun e => unread_failing _ e b) rfl (Stands.unread h hreturn' b)
  rwa [heq]

/-! ## One act -/

/-- The channel is open, and what is unread is what `s` has returned and then some of the file, up
to where the device stands. -/
structure Spotted (mode : OpenMode) (c : Buffered σ) (s : Spot) : Prop where
  pos_le : s.file.pos ≤ top σ
  steady : ∃ ahead ≤ s.file.rest.length,
    Steady mode false c (s.returned ++ s.file.rest.take ahead) (s.file.advance ahead)

variable {s : Spot}

theorem Spotted.ahead (h : Spotted mode c s) :
    c.unreadCount - s.returned.length ≤ s.file.rest.length ∧
      Steady mode false c (s.returned ++ s.file.rest.take (c.unreadCount - s.returned.length))
        (s.file.advance (c.unreadCount - s.returned.length)) := by
  obtain ⟨ahead, hle, hs⟩ := h.steady
  have hcount : c.unreadCount - s.returned.length = ahead := by
    rw [hs.unreadCount, List.length_append, List.length_take_of_le hle, Nat.add_sub_cancel_left]
  rw [hcount]
  exact ⟨hle, hs⟩

/-- Where the device has moved on and input was taken, the spot has moved over what was taken. -/
theorem Spotted.of_taken {ahead : Nat} {bs u' : Bytes} {g' : File} (hpos : s.file.pos ≤ top σ)
    (hlen : s.file.bytes.length ≤ top σ) (hle : ahead ≤ s.file.rest.length)
    (ht : Taken false (s.returned ++ s.file.rest.take ahead) (s.file.advance ahead) bs u' g')
    (hs : Steady mode false c u' g') : Spotted mode c (s.take bs.length) := by
  obtain ⟨k, hk, rfl, -, hcut⟩ := ht
  rw [File.rest_advance] at hk hcut
  rw [decoded_false, List.append_assoc, ← List.take_add] at hcut
  rw [List.length_drop] at hk
  have hbs : bs.length ≤ s.returned.length + (ahead + k) := by
    have hl := congrArg List.length hcut
    simp only [List.length_append, List.length_take] at hl
    omega
  have hu' : u' = s.returned.drop bs.length ++
      (s.file.rest.take (ahead + k)).drop (bs.length - s.returned.length) := by
    rw [← List.drop_append, hcut, List.drop_left]
  have hrest := s.file.length_rest
  refine ⟨?_, ahead + k - (bs.length - s.returned.length), ?_, ?_⟩
  · change s.file.pos + (bs.length - s.returned.length) ≤ top σ
    omega
  · rw [Spot.take, File.rest_advance, List.length_drop]
    omega
  · rw [Spot.take, File.rest_advance, File.advance_advance, ← List.drop_take, ← hu',
      Nat.add_sub_cancel' (by omega), ← File.advance_advance]
    exact hs

/-- Where a call starts that gives up what is unread. -/
theorem Spotted.settled (h : Spotted mode c s) (hlen : s.file.bytes.length ≤ top σ) :
    let pos := s.syncPos (c.unreadCount - s.returned.length)
    Steady mode false c.settled [] { s.file with pos := pos } ∧ pos ≤ top σ ∧
      (s.file.pos < s.returned.length → c.settled.isFailed = true) := by
  intro pos
  obtain ⟨hle, hs⟩ := h.ahead
  have hpos := h.pos_le
  have hrest := s.file.length_rest
  unfold pos Spot.syncPos
  generalize c.unreadCount - s.returned.length = ahead at hle hs
  obtain ⟨hsettled, hfailed⟩ := hs.settled (by rw [File.pos_advance]; omega)
  have hlength : (encoded false (s.returned ++ s.file.rest.take ahead)).length =
      s.returned.length + ahead := by
    rw [encoded_false, List.length_append, List.length_take_of_le hle]
  rw [File.givenBack, File.rewound, hlength, File.pos_advance] at hsettled
  rw [hlength, File.pos_advance] at hfailed
  by_cases hback : s.returned.length ≤ s.file.pos
  · rw [if_pos (by omega), File.back, File.pos_advance, Nat.add_sub_add_right] at hsettled
    rw [if_pos hback]
    exact ⟨hsettled, by omega, fun hlt => absurd hback (Nat.not_le_of_lt hlt)⟩
  · rw [if_neg (by omega)] at hsettled
    rw [if_neg hback]
    exact ⟨hsettled, by omega, fun hlt => hfailed (by omega)⟩

namespace Spotted

theorem input (h : Spotted mode c s) (hr : mode.isReadable = true)
    (hlen : s.file.bytes.length ≤ top σ) (call : Call) (hcall : call.isInput = true) :
    Spotted mode (c.perform call).2 (s.take (call.taken (c.perform call).1).length) := by
  obtain ⟨ahead, hle, hs⟩ := h.steady
  obtain ⟨-, u', g', hs', ht⟩ := Stands.input_quiet hs hr (fun _ => hlen) call hcall
  exact of_taken h.pos_le hlen hle ht hs'

theorem unread (h : Spotted mode c s) (hreturn : Returnable c) (b : UInt8) :
    Spotted mode (c.unread b).2 { s with returned := b :: s.returned } := by
  obtain ⟨ahead, hle, hs⟩ := h.steady
  exact ⟨h.pos_le, ahead, hle, hs.unread hreturn b⟩

theorem advance (h : Spotted mode c s) (hlen : s.file.bytes.length ≤ top σ) {n : Nat}
    (hn : n ≤ c.get.available) : Spotted mode (c.advance n) (s.take n) := by
  obtain ⟨ahead, hle, hs⟩ := h.steady
  generalize hu : s.returned ++ s.file.rest.take ahead = u at hs
  have hn' : n ≤ u.length := by
    rw [← hs.unreadCount, Buffered.unreadCount]
    omega
  have ht : Taken false (s.returned ++ s.file.rest.take ahead) (s.file.advance ahead) (u.take n)
      (u.drop n) (s.file.advance ahead) := .stay _ (by rw [hu, List.take_append_drop])
  have hadvance : Steady mode false (c.advance n) (u.drop n) (s.file.advance ahead) :=
    Stands.advance (c := { c with error := none }) hs hn
  have htake := of_taken h.pos_le hlen hle ht hadvance
  rwa [List.length_take_of_le hn'] at htake

theorem settles (h : Spotted mode c s) (call : Call)
    (hcall : call.settles mode.isWritable = true) :
    let s' := s.call mode (c.unreadCount - s.returned.length) call (c.perform call).1
    s'.file.bytes.length ≤ top σ → Spotted mode (c.perform call).2 s' := by
  intro s' hlen'
  have hlen := Nat.le_trans (s.length_le_call mode _ call _) hlen'
  obtain ⟨hle, hs⟩ := h.ahead
  obtain ⟨hsettled, hpos, -⟩ := h.settled hlen
  have hperform : c.settled.perform call = c.perform call :=
    hs.coherent.perform_settled hs.isOpen call (by rw [hs.mode_eq, hcall])
  have hs' : s' = ⟨File.settledBy { s.file with
      pos := s.syncPos (c.unreadCount - s.returned.length) } mode false call
        (c.settled.perform call).1, []⟩ := by
    rw [hperform]
    unfold s' Spot.call
    split
    · cases hcall
    · rw [if_pos hcall]
  rw [hs'] at hlen' ⊢
  obtain ⟨hsteady, hpos'⟩ := hsettled.settledBy call hcall hpos hlen'
  rw [← hperform]
  exact ⟨hpos', 0, Nat.zero_le _, hsteady⟩

/-- The step: one call moves the spot by what it answers. -/
theorem perform (h : Spotted mode c s) (hr : mode.isReadable = true) (call : Call) :
    let s' := s.call mode (c.unreadCount - s.returned.length) call (c.perform call).1
    s'.file.bytes.length ≤ top σ → Spotted mode (c.perform call).2 s' := by
  intro s' hlen'
  have hlen := Nat.le_trans (s.length_le_call mode _ call _) hlen'
  obtain ⟨hle, hs⟩ := h.ahead
  by_cases hsettles : call.settles mode.isWritable = true
  · exact h.settles call hsettles hlen'
  have hstay (hunread : ∀ b, (c.perform call).1 = .flag true → call ≠ .unread b) :
      s' = s.take (call.taken (c.perform call).1).length :=
    s.call_of_not_settles (by simpa using hsettles) hunread
  by_cases hinput : call.isInput = true
  · rw [hstay fun b _ he => absurd (he ▸ hinput) (by simp [Call.isInput])]
    exact h.input hr hlen call hinput
  -- what is left is a byte to push back, output in a mode without it, or a change of buffer
  have hrefused (hout : call.settles true = true) :
      Spotted mode (c.perform call).2 (s.take 0) := by
    have hw : ¬mode.isWritable = true := fun hw => hsettles (by rwa [hw])
    have hcw : c.canWrite = false := by
      rw [canWrite, hs.mode_eq, Bool.eq_false_iff.2 hw, Bool.and_false]
    rw [perform_of_not_canWrite hcw call hout (by simpa [hw] using hsettles), s.take_zero]
    exact h
  have hinstall (buffer : Bytes) : Spotted mode (c.installBuffer buffer).2 (s.take 0) := by
    rw [s.take_zero]
    exact ⟨h.pos_le, _, hle, hs.installBuffer (fun _ => hlen) buffer⟩
  cases call with
  | unread b =>
    obtain ⟨hreturn, haccepted, -⟩ | hsame := c.unread_cases b
    · have hs' : s' = { s with returned := b :: s.returned } := by
        unfold s'
        rw [Buffered.perform, Prod.map_fst, haccepted]
        rfl
      rw [hs']
      exact h.unread hreturn b
    · have hanswer : (c.perform (.unread b)).1 = .flag false :=
        congrArg (fun r : Bool × Buffered σ => Answer.flag r.1) hsame
      rw [hstay (by simp [hanswer])]
      change Spotted mode (c.unread b).2 (s.take 0)
      rw [s.take_zero, hsame]
      exact h
  | write src =>
    rw [hstay (by simp)]
    exact hrefused rfl
  | writeByte b =>
    rw [hstay (by simp)]
    exact hrefused rfl
  | overflow b =>
    rw [hstay (by simp)]
    exact hrefused rfl
  | install buffer =>
    rw [hstay (by simp)]
    exact hinstall buffer
  | resize n =>
    rw [hstay (by simp)]
    exact hinstall _
  | _ => exact absurd rfl (by first | exact hinput | exact hsettles)

theorem act (h : Spotted mode c s) (hr : mode.isReadable = true) (a : Act σ) (ha : a ≠ .close)
    (hlen : (s.act mode c a).file.bytes.length ≤ top σ) :
    Spotted mode (c.act a) (s.act mode c a) := by
  obtain ⟨hle, hs⟩ := h.ahead
  cases a with
  | attach d mode' =>
    have hopen : c.attach d mode' = .error (.alreadyOpen, d) := if_pos hs.isOpen
    simp only [Buffered.act, hopen]
    exact h
  | call call => exact h.perform hr call hlen
  | consume n =>
    have hlen' := Nat.le_trans (s.length_le_act mode c (.consume n)) hlen
    rw [Buffered.act, Spot.act]
    -- a count beyond what is at hand takes all of it
    by_cases hn : c.get.next + n ≤ maxWord
    · have hsome : c.consume? n = some (c.advance (min n c.get.available)) := by
        rw [consume?, Region.bump?, if_pos hn, Region.bump_min]
        rfl
      rw [hsome]
      exact h.advance hlen' (Nat.min_le_right _ _)
    · have hnone : c.consume? n = none := by
        rw [consume?, Region.bump?, if_neg hn]
        rfl
      rw [hnone]
      exact h
  | takeError => exact ⟨h.pos_le, _, hle, hs⟩
  | configure o =>
    obtain ⟨p, f, hc, hg⟩ := hs
    exact ⟨h.pos_le, _, hle, p, f, ⟨⟨hc.mode_eq, hc.text_eq, hc.expander, hc.error_eq, hc.shows⟩,
      hc.coherent.configure o, hc.stock_eq, hc.pending_eq⟩, hg⟩
  | close => exact absurd rfl ha

theorem actAll (h : Spotted mode c s) (hr : mode.isReadable = true) (acts : List (Act σ))
    (hacts : .close ∉ acts) (hlen : (s.actAll mode c acts).file.bytes.length ≤ top σ) :
    Spotted mode (c.actAll acts) (s.actAll mode c acts) := by
  induction acts generalizing c s with
  | nil => exact h
  | cons a acts ih =>
    obtain ⟨ha, hacts⟩ := List.ne_and_not_mem_of_not_mem_cons hacts
    have hlen' := Nat.le_trans ((s.act mode c a).length_le_actAll mode (c.act a) acts) hlen
    exact ih (h.act hr a ha.symm hlen') hacts hlen

end Spotted

/-! ## Syncs -/

/-- The device shows a file of the bytes at the position, and input goes on from there. -/
structure Resumes (c : Buffered σ) (bytes : Bytes) (pos : Nat) : Prop where
  shows : ∃ d, c.device = some d ∧ Shows d ⟨bytes, pos⟩
  delivers : ∀ calls : List Call, (∀ call ∈ calls, call.isInput = true) →
    Call.DeliversAll (bytes.drop pos) calls ((c.performAll calls).1.map Answer.quiet)

theorem Held.resumes (h : Held mode false { c with error := none } [] [] g)
    (hr : mode.isReadable = true) (hlen : g.bytes.length ≤ top σ) :
    Resumes c g.bytes g.pos where
  shows := h.shows
  delivers calls hcalls := by
    have hstreams : Streams mode false { c with error := none } g.rest :=
      ⟨[], g, .of_held h, fun _ => hlen, rfl⟩
    exact hstreams.performAll_quiet hr calls hcalls

/-- After any history since it was opened, a flush of a binary channel with input, or a question for
its position, goes well and goes back over what was read ahead and over every byte that was pushed
back: to the first byte not consumed, and by as many bytes further as were pushed back. Where that
is before the start of the file it goes back over nothing, so that the bytes read ahead are skipped,
and a failure is latched. Input goes on from where it ends. -/
theorem sync_goes_back {c₀ : Buffered σ} {d : σ} {f : File} {mode : OpenMode}
    (hclosed : c₀.isOpen = false) (hs : Shows d f) (hpos : f.pos ≤ top σ)
    (hlen : f.bytes.length ≤ top σ) (hread : mode.isReadable = true)
    (hbinary : mode.binary = true ∨ c₀.settings.textPolicy.translates = false) :
    ∃ c₁, c₀.attach d mode = .ok c₁ ∧ ∀ acts : List (Act σ), .close ∉ acts →
      let c := c₁.actAll acts
      let s := Spot.actAll ⟨f.opened mode, []⟩ mode c₁ acts
      let back := s.returned.length
      let ahead := c.unreadCount - back
      let pos := if back ≤ s.file.pos then s.file.pos - back else s.file.pos + ahead
      s.file.bytes.length ≤ top σ →
        (ahead ≤ s.file.rest.length ∧ c.stock = s.returned ++ s.file.rest.take ahead) ∧
        (c.flush.1 = .ok () ∧ Resumes c.flush.2 s.file.bytes pos) ∧
        (c.tell.1 = .ok pos ∧ Resumes c.tell.2 s.file.bytes pos) ∧
        (s.file.pos < back → c.flush.2.isFailed = true ∧ c.tell.2.isFailed = true) := by
  obtain ⟨c₁, hattach, hc₁⟩ := attach_held hclosed hs mode fun _ => hlen
  have htext : (!mode.binary && c₀.settings.textPolicy.translates) = false := by
    rcases hbinary with hb | hb <;> simp [hb]
  rw [htext] at hc₁
  have hstart : Spotted mode c₁ ⟨f.opened mode, []⟩ := by
    refine ⟨?_, 0, Nat.zero_le _, .of_held ?_⟩
    · unfold File.opened
      by_cases ha : mode.startsAtEnd = true
      · rwa [if_pos ha]
      · rwa [if_neg ha]
    · rw [clearError_eq hc₁.error_eq]
      exact hc₁
  refine ⟨c₁, hattach, fun acts hacts => ?_⟩
  intro c s back ahead pos hbound
  have hspotted : Spotted mode c s := hstart.actAll hread acts hacts hbound
  obtain ⟨hle, hsteady⟩ := hspotted.ahead
  obtain ⟨hsettled, htop, hfailed⟩ := hspotted.settled hbound
  have hperform (call : Call) (hcall : call.settles mode.isWritable = true) :
      c.settled.perform call = c.perform call :=
    hsteady.coherent.perform_settled hsteady.isOpen call (by rw [hsteady.mode_eq, hcall])
  obtain ⟨c₂, hflush, hkept, hc₂⟩ := hsettled.flush fun _ => hbound
  obtain ⟨c₃, htell, hkept', hc₃⟩ := hsettled.tell (fun _ => hbound) htop
  have hflush' : c.flush = (.ok (), c₂) := by
    have h := hperform .flush rfl
    rw [Buffered.perform, Buffered.perform, hflush] at h
    exact Prod.ext (Answer.outcome.inj (congrArg Prod.fst h)).symm (congrArg Prod.snd h).symm
  have htell' : c.tell = (.ok pos, c₃) := by
    have h := hperform .tell rfl
    rw [Buffered.perform, Buffered.perform, htell] at h
    exact Prod.ext (Answer.position.inj (congrArg Prod.fst h)).symm (congrArg Prod.snd h).symm
  rw [hflush', htell', isFailed, isFailed, hkept, hkept']
  exact ⟨⟨hle, Stands.stock_eq (c := { c with error := none }) hsteady⟩,
    ⟨rfl, hc₂.resumes hread hbound⟩, ⟨rfl, hc₃.resumes hread hbound⟩,
    fun hlt => ⟨hfailed hlt, hfailed hlt⟩⟩

/-- Two bytes of buffer over a device that reads one byte at a time. One byte was consumed, and
another one pushed back since. -/
theorem sync_goes_back_once :
    let d : Faulty :=
      { cursor := .ofBytes [97, 98, 99] 0
        readChunk := some 1
        interruptPeriod := 2 }
    let mode : OpenMode := { read := true, binary := true }
    let acts : List (Act Faulty) :=
      [.call .peek, .call (.unread 120), .call (.read 2), .call .peek, .call (.unread 121)]
    ∃ c₁, (withSettings { bufferSize := 2 }).attach d mode = .ok c₁ ∧
      let c := c₁.actAll acts
      c.stock = [121, 98] ∧ c.flush.1 = .ok () ∧ Resumes c.flush.2 [97, 98, 99] 0 ∧
        c.tell.1 = .ok 0 := by
  intro d mode acts
  have hs : Shows d ⟨[97, 98, 99], 0⟩ := ⟨⟨by decide, by decide, rfl, rfl, rfl, rfl⟩, by cbv⟩
  have hread : mode.isReadable = true := rfl
  have hacts : .close ∉ acts := by simp [acts]
  have hclosed : (withSettings { bufferSize := 2 } : Buffered Faulty).isOpen = false := rfl
  obtain ⟨c₁, hattach, hall⟩ :=
    sync_goes_back hclosed hs (by decide) (by decide) hread (.inl rfl)
  cases (hattach.symm.trans rfl : Except.ok c₁ = _)
  obtain ⟨-, ⟨hflush, hresumes⟩, ⟨htell, -⟩, -⟩ := hall acts hacts (by cbv)
  refine ⟨_, hattach, by cbv, hflush, cast (congrArg₂ (Resumes _) ?_ ?_) hresumes,
    htell.trans (congrArg _ ?_)⟩
  · cbv
  · cbv
  · cbv

/-- A byte is pushed back before anything was consumed. The flush goes well and skips the file, of
which the first byte was shown and none was taken. -/
theorem flush_skips_unread :
    let c := (withSettings { bufferSize := 4 } : Buffered Cursor).actAll
      [.attach (.ofBytes [97, 98] 0) { read := true }]
    let acts : List (Act Cursor) := [.call .peek, .call (.unread 120)]
    let s := Spot.actAll ⟨⟨[97, 98], 0⟩, []⟩ { read := true } c acts
    let after := (c.actAll acts).flush
    s.file.pos = 0 ∧ s.returned = [120] ∧ after.1 = .ok () ∧
      after.2.device.map Cursor.file = some ⟨[97, 98], 2⟩ ∧ (after.2.read 2).1 = [] := by
  intro c acts s after
  unfold after s acts c
  exact ⟨by cbv, by cbv, by cbv, by cbv, by cbv⟩

end Buffered

end ByteChannel
