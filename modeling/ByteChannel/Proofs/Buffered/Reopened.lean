import ByteChannel.Proofs.Buffered.Use
import ByteChannel.Device.Faulty
import Mathlib

/-!
# A closed channel opens like a new one

Whatever a channel went through, once it is closed every device it was opened over has been closed
exactly once, as the last thing that was asked of it. What is left are the settings and the size of
a buffer that the caller put in: the next opening shows what it would show on a new channel with
these.
-/

namespace ByteChannel

/-! ## What a list of uses says -/

namespace Seen

variable {σ : Type}

def attached? (s : Seen σ) : Option σ :=
  match s.use, s.outcome with
  | .attach d _, .opened (.ok ()) => some d
  | _, _ => none

def returned? (s : Seen σ) : Option σ :=
  match s.outcome with
  | .closed _ d => d
  | _ => none

def configured? (s : Seen σ) : Option Settings :=
  match s.use with
  | .configure o => some o
  | _ => none

def installed? (s : Seen σ) : Option Nat :=
  match s.use, s.outcome with
  | .call call, .answered (.outcome (.ok ())) => Buffered.putsIn call
  | _, _ => none

end Seen

namespace Buffered

variable {σ : Type} {c c' : Buffered σ}

theorem installed?_of_putsIn {call : Call} (a : Answer) (h : putsIn call = none) :
    (c.see (.call call) (.answered a)).installed? = none := by
  unfold Seen.installed?
  split
  · next hcall _ =>
    cases hcall
    exact h
  · rfl

variable [Device σ]

/-- A device that was used for a while and then closed. -/
def Finished (d d' : σ) : Prop := ∃ d₁, Device.Used d d₁ ∧ (Device.close d₁).2 = d'

/-- Between a channel over `o` and one over `o'`, devices were attached and came back in turn. -/
def Passed (o : Option σ) (seen : List (Seen σ)) (o' : Option σ) : Prop :=
  ∃ done last, o.toList ++ seen.filterMap Seen.attached? = done ++ Option.toList last ∧
    List.Forall₂ Finished done (seen.filterMap Seen.returned?) ∧ Option.Rel Device.Used last o'

theorem Passed.of_used {o o₁ o' : Option σ} {seen : List (Seen σ)}
    (hu : Option.Rel Device.Used o o₁) (h : Passed o₁ seen o') : Passed o seen o' := by
  cases hu with
  | none => exact h
  | @some d d₁ hu =>
    obtain ⟨done, last, heq, hdone, hlast⟩ := h
    cases done with
    | nil =>
      cases last with
      | none => cases heq
      | some d₂ =>
        obtain ⟨rfl, hrest⟩ := List.cons.inj heq
        refine ⟨[], some d, congrArg (d :: ·) hrest, hdone, rel_used_trans (.some hu) hlast⟩
    | cons d₂ done =>
      obtain ⟨rfl, hrest⟩ := List.cons.inj heq
      obtain ⟨d', returned, ⟨d₃, hused, hclose⟩, hmore, hreturned⟩ :=
        List.forall₂_cons_left_iff.1 hdone
      refine ⟨d :: done, last, congrArg (d :: ·) hrest, ?_, hlast⟩
      rw [hreturned]
      exact .cons ⟨d₃, hu.trans hused, hclose⟩ hmore

theorem Passed.trans {o o₁ o' : Option σ} {seen more : List (Seen σ)} (h : Passed o seen o₁)
    (h' : Passed o₁ more o') : Passed o (seen ++ more) o' := by
  obtain ⟨done, last, heq, hdone, hlast⟩ := h
  obtain ⟨done', last', heq', hdone', hlast'⟩ := h'.of_used hlast
  refine ⟨done ++ done', last', ?_, ?_, hlast'⟩
  · rw [List.filterMap_append, ← List.append_assoc, heq, List.append_assoc, heq', List.append_assoc]
  · rw [List.filterMap_append]
    exact List.rel_append hdone hdone'

/-! ## One use -/

theorem passed_of_rel (u : Use σ) (outcome : Outcome σ) (ha : (c'.see u outcome).attached? = none)
    (hr : (c'.see u outcome).returned? = none) (hrel : Option.Rel Device.Used c.device c'.device) :
    Passed c.device [c'.see u outcome] c'.device := by
  refine ⟨[], c.device, ?_, ?_, hrel⟩
  · simp [ha]
  · simp [hr]

theorem Coherent.passed_use (h : Coherent c) (u : Use σ) :
    Passed c.device [(c.use u).2.see u (c.use u).1] (c.use u).2.device := by
  cases u with
  | attach d mode =>
    cases ha : c.attach d mode with
    | error e =>
      simp only [Buffered.use, ha]
      exact passed_of_rel _ _ rfl rfl (rel_used_refl _)
    | ok c' =>
      obtain ⟨hnone, ⟨d', hd', hu⟩, _⟩ := attach_spec ha
      simp only [Buffered.use, ha, hnone, hd']
      exact ⟨[], some d, rfl, .nil, .some hu⟩
  | configure o => exact passed_of_rel _ _ rfl rfl (rel_used_refl _)
  | call call =>
    refine passed_of_rel _ _ rfl rfl ?_
    obtain ⟨hon, _⟩ | ⟨buffer, c₁, hon, _, heq⟩ := h.perform_spec call
    · exact hon.device
    · simp only [Buffered.use, heq]
      exact hon.device
  | stream call => exact passed_of_rel _ _ rfl rfl (h.onward_stream call).device
  | takeError => exact passed_of_rel _ _ rfl rfl (rel_used_refl _)
  | describe => exact passed_of_rel _ _ rfl rfl (rel_used_refl _)
  | close =>
    obtain ⟨hnone, hclose⟩ | ⟨d, d', r, c', hd, hu, hclose, hnone, _⟩ := close_spec c
    · simp only [Buffered.use, hclose]
      exact passed_of_rel _ _ rfl rfl (rel_used_refl _)
    · simp only [Buffered.use, hclose, hd, hnone]
      exact ⟨[d], none, rfl, .cons ⟨d', hu, rfl⟩ .nil, .none⟩

theorem Coherent.passed_useAll (h : Coherent c) (us : List (Use σ)) :
    Passed c.device (c.useAll us).1 (c.useAll us).2.device := by
  induction us generalizing c with
  | nil => exact ⟨[], c.device, by simp [Buffered.useAll], .nil, rel_used_refl _⟩
  | cons u us ih => exact (h.passed_use u).trans (ih (h.use u))

/-! ## What outlives a session -/

/-- The size of the buffer that the caller has put in. -/
def installedSize (c : Buffered σ) : Option Nat := if c.adopted then some c.bufferSize else none

theorem Onward.installedSize (h : Onward c c') : c'.installedSize = c.installedSize := by
  have ha : c'.adopted = c.adopted := congrArg Setup.adopted h.setup
  have hs : c'.bufferSize = c.bufferSize := congrArg Setup.bufferSize h.setup
  unfold Buffered.installedSize
  rw [ha, hs]

theorem Coherent.settings_use (h : Coherent c) (u : Use σ) :
    (c.use u).2.settings = ((c.use u).2.see u (c.use u).1).configured?.getD c.settings := by
  cases u with
  | attach d mode =>
    cases ha : c.attach d mode with
    | error e =>
      simp only [Buffered.use, ha]
      rfl
    | ok c' =>
      simp only [Buffered.use, ha]
      exact (attach_spec ha).2.2.1
  | configure o => rfl
  | call call =>
    obtain ⟨hon, _⟩ | ⟨buffer, c₁, hon, _, heq⟩ := h.perform_spec call
    · exact congrArg Setup.settings hon.setup
    · simp only [Buffered.use, heq]
      exact congrArg Setup.settings hon.setup
  | stream call => exact congrArg Setup.settings (h.onward_stream call).setup
  | takeError => rfl
  | describe => rfl
  | close =>
    obtain ⟨_, hclose⟩ | ⟨d, d', r, c', _, _, hclose, _, hs, _⟩ := close_spec c
    · simp only [Buffered.use, hclose]
      rfl
    · simp only [Buffered.use, hclose]
      exact hs

theorem Coherent.installedSize_use (h : Coherent c) (u : Use σ) :
    (c.use u).2.installedSize =
      ((c.use u).2.see u (c.use u).1).installed?.or c.installedSize := by
  cases u with
  | attach d mode =>
    cases ha : c.attach d mode with
    | error e =>
      simp only [Buffered.use, ha]
      rfl
    | ok c' =>
      obtain ⟨_, _, _, hadopted, hsize⟩ := attach_spec ha
      simp only [Buffered.use, ha]
      change c'.installedSize = c.installedSize
      unfold Buffered.installedSize
      rw [hadopted]
      by_cases hc : c.adopted = true
      · rw [if_pos hc, if_pos hc, hsize hc]
      · rw [if_neg hc, if_neg hc]
  | configure o => rfl
  | call call =>
    obtain ⟨hon, hno | ⟨e, he⟩⟩ | ⟨buffer, c₁, hon, hputs, heq⟩ := h.perform_spec call
    · rw [show (c.use (.call call)).1 = .answered (c.perform call).1 from rfl,
        installed?_of_putsIn _ hno]
      exact hon.installedSize
    · rw [show (c.use (.call call)).1 = .answered (c.perform call).1 from rfl, he]
      exact hon.installedSize
    · simp only [Buffered.use, heq]
      change some buffer.length = (putsIn call).or c.installedSize
      rw [hputs]
      rfl
  | stream call => exact (h.onward_stream call).installedSize
  | takeError => rfl
  | describe => rfl
  | close =>
    obtain ⟨_, hclose⟩ | ⟨d, d', r, c', _, _, hclose, _, _, hadopted, hsize⟩ := close_spec c
    · simp only [Buffered.use, hclose]
      rfl
    · simp only [Buffered.use, hclose]
      change c'.installedSize = c.installedSize
      unfold Buffered.installedSize
      rw [hadopted, hsize]

theorem getLast?_filterMap_cons {α β : Type} (f : α → Option β) (a : α) (as : List α) :
    ((a :: as).filterMap f).getLast? = (as.filterMap f).getLast?.or (f a) := by
  cases hf : f a with
  | none => rw [List.filterMap_cons_none hf, Option.or_none]
  | some b =>
    rw [List.filterMap_cons_some hf, List.getLast?_cons]
    cases (as.filterMap f).getLast? <;> rfl

/-- The settings are the last ones that were made, and a buffer of the caller's is as long as the
last one that was taken. -/
theorem Coherent.outlives (h : Coherent c) (us : List (Use σ)) :
    (c.useAll us).2.settings =
        (((c.useAll us).1.filterMap Seen.configured?).getLast?).getD c.settings ∧
      (c.useAll us).2.installedSize =
        (((c.useAll us).1.filterMap Seen.installed?).getLast?).or c.installedSize := by
  induction us generalizing c with
  | nil => exact ⟨rfl, rfl⟩
  | cons u us ih =>
    obtain ⟨hs, hi⟩ := ih (h.use u)
    simp only [Buffered.useAll, getLast?_filterMap_cons, hs, hi, h.settings_use,
      h.installedSize_use, Option.getD_or, Option.or_assoc, and_self]

/-! ## Opening again -/

/-- A new channel with these settings. The caller may put in a buffer before it is opened. -/
def fresh (o : Settings) : Option Bytes → Buffered σ
  | none => withSettings o
  | some buffer => ((withSettings o).installBuffer buffer).2

/-- All that an opening and the uses after it show. -/
def session (c : Buffered σ) (d : σ) (mode : OpenMode) (us : List (Use σ)) :
    Except (ChannelError × σ) (List (Seen σ)) :=
  (c.attach d mode).map fun c' => c'.see (.attach d mode) (.opened (.ok ())) :: (c'.useAll us).1

theorem Reopens.session (h : Reopens c c') (d : σ) (mode : OpenMode) (us : List (Use σ)) :
    c'.session d mode us = c.session d mode us := by
  unfold Buffered.session
  obtain ⟨e, ha, ha'⟩ | ⟨s, s', ha, ha', hs⟩ := h.attach d mode
  · rw [ha, ha']
  · rw [ha, ha']
    simp only [Except.map, hs.see, hs.useAll (coherent_attach ha)]

theorem reopens_fresh {o : Settings} {buffer : Option Bytes} (hopen : c.isOpen = false)
    (hs : c.settings = o) (hi : c.installedSize = buffer.map List.length) :
    Reopens c (fresh o buffer) := by
  unfold installedSize at hi
  cases buffer with
  | none =>
    by_cases ha : c.adopted = true
    · rw [if_pos ha] at hi
      cases hi
    · have hadopted : c.adopted = false := by simpa using ha
      exact ⟨hopen, rfl, hs.symm, hadopted.symm, fun h => absurd h ha⟩
  | some buffer =>
    by_cases ha : c.adopted = true
    · rw [if_pos ha] at hi
      exact ⟨hopen, rfl, hs.symm, ha.symm, fun _ => (Option.some.inj hi).symm⟩
    · rw [if_neg ha] at hi
      cases hi

theorem isOpen_use_close (c : Buffered σ) : (c.use .close).2.isOpen = false := by
  obtain ⟨hnone, hclose⟩ | ⟨d, d', r, c', _, _, hclose, hnone, _⟩ := close_spec c
  · simp only [Buffered.use, hclose, isOpen, hnone, Option.isSome_none]
  · simp only [Buffered.use, hclose, isOpen, hnone, Option.isSome_none]

/-- Over a log, a device that was used and then closed shows just that. -/
theorem Finished.log {τ : Type} [Device τ] {d d' : Logged τ} (h : Finished d d') :
    ∃ calls, d'.log = d.log ++ calls.map .io ++ [.close] ∧
      d'.device = (Device.close (Device.performAll d.device calls).2).2 := by
  obtain ⟨d₁, ⟨calls, _, hd₁⟩, rfl⟩ := h
  rw [Logged.performAll_eq] at hd₁
  subst hd₁
  exact ⟨calls, rfl, rfl⟩

/-- However a channel was used, once it is closed each device that it was opened over was closed
exactly once, after all other calls on it, and the next opening shows what it would show on a new
channel: the same results, the same calls on the device, and the same failures. -/
theorem closed_channel_opens_as_new {τ : Type} [Device τ] (o : Settings)
    (history : List (Use (Logged τ))) (buffer : Option Bytes) :
    let r := (withSettings o : Buffered (Logged τ)).useAll (history ++ [.close])
    buffer.map List.length = (r.1.filterMap Seen.installed?).getLast? →
    r.2.isOpen = false ∧
      List.Forall₂ (fun d d' => ∃ calls, d'.log = d.log ++ calls.map .io ++ [.close] ∧
          d'.device = (Device.close (Device.performAll d.device calls).2).2)
        (r.1.filterMap Seen.attached?) (r.1.filterMap Seen.returned?) ∧
      ∀ d mode later, r.2.session d mode later =
        (fresh ((r.1.filterMap Seen.configured?).getLast?.getD o) buffer).session d mode later := by
  intro r hbuffer
  have hclosed : r.2.isOpen = false := by
    simp only [r, useAll_append]
    exact isOpen_use_close _
  have hcoherent : Coherent (withSettings o : Buffered (Logged τ)) := coherent_withSettings o
  obtain ⟨hs, hi⟩ := hcoherent.outlives (history ++ [.close])
  refine ⟨hclosed, ?_, fun d mode later => ?_⟩
  · obtain ⟨done, last, heq, hdone, hlast⟩ := hcoherent.passed_useAll (history ++ [.close])
    have hnone : r.2.device = none := by simpa [isOpen] using hclosed
    rw [hnone] at hlast
    cases hlast
    rw [show (withSettings o : Buffered (Logged τ)).device = none from rfl, Option.toList_none,
      List.nil_append, List.append_nil] at heq
    rw [heq]
    exact hdone.imp fun _ _ => Finished.log
  · refine (Reopens.session (reopens_fresh hclosed hs ?_) d mode later).symm
    rw [hi, hbuffer]
    exact Option.or_none

/-- A text channel with a buffer of the caller's. A byte is read and one pushed back, output is lost
as the channel closes, and the device fails to close. -/
theorem closed_channel_opens_as_new_failing :
    let d : Logged Faulty :=
      { device :=
          { cursor := .ofBytes [97, 13, 10, 98] 0, writeQuota := some 0, failsClose := true } }
    let history : List (Use (Logged Faulty)) := [.call (.install [1, 2, 3]),
      .attach d { read := true, write := true }, .call .readByte, .call (.unread 120),
      .call (.write [121])]
    let r := (withSettings { textPolicy := .translate }).useAll (history ++ [.close])
    (some [0, 0, 0]).map List.length = (r.1.filterMap Seen.installed?).getLast? ∧
      (r.1.filterMap Seen.attached?).length = 1 ∧
      List.Forall₂ (fun d d' => ∃ calls, d'.log = d.log ++ calls.map .io ++ [.close] ∧
          d'.device = (Device.close (Device.performAll d.device calls).2).2)
        (r.1.filterMap Seen.attached?) (r.1.filterMap Seen.returned?) ∧
      ∀ d mode later, r.2.session d mode later =
        (fresh { textPolicy := .translate } (some [0, 0, 0])).session d mode later := by
  intro d history r
  have hbuffer : (some [0, 0, 0]).map List.length = (r.1.filterMap Seen.installed?).getLast? := by
    cbv
  have hconfigured : (r.1.filterMap Seen.configured?).getLast? = none := by cbv
  obtain ⟨_, hdevices, hsession⟩ := closed_channel_opens_as_new { textPolicy := .translate } history
    (some [0, 0, 0]) hbuffer
  rw [show (withSettings { textPolicy := .translate }).useAll (history ++ [.close]) = r from rfl,
    hconfigured] at hsession
  exact ⟨hbuffer, by cbv, hdevices, hsession⟩

end Buffered

end ByteChannel
