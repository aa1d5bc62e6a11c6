import ByteChannel.Disk.File
import ByteChannel.Proofs.Device.Along
import ByteChannel.Proofs.Text.Expanded

/-!
# Devices that grow at their end

A device of which only the end matters: reads and seeks leave its bytes as they are, a seek to the
end that succeeds goes there, and a write at the end appends what it takes. Any such device can be
watched, which notes whether a write or a seek to the end ever failed and changes nothing else.
Whole transfers over a watched device append all of their source, or leave the note and everything
that was there before.
-/

namespace ByteChannel

class Appendable (σ : Type) [Device σ] extends WritesWithin σ where
  bytes : σ → Bytes
  /-- The next write goes to where the bytes end. -/
  AtEnd : σ → Prop
  bytes_read : ∀ (s : σ) (n : Nat), bytes (Device.read s n).2 = bytes s
  bytes_seek : ∀ (s : σ) (o : Origin), bytes (Device.seek s o).2 = bytes s
  bytes_close : ∀ s : σ, bytes (Device.close s).2 = bytes s
  atEnd_seek : ∀ {s s' : σ} {pos}, Device.seek s (.finish 0) = (.ok pos, s') → AtEnd s'
  write_ok : ∀ {s s' : σ} {src k}, AtEnd s → Device.write s src = (.ok k, s') →
    AtEnd s' ∧ bytes s' = bytes s ++ src.take k
  write_error : ∀ {s s' : σ} {src e}, AtEnd s → Device.write s src = (.error e, s') →
    AtEnd s' ∧ bytes s' = bytes s

theorem overwrite_at_end (old new : Bytes) : overwrite old old.length new = old ++ new := by
  rw [overwrite_eq_take_append_drop _ _ (Nat.le_refl _), List.take_length,
    List.drop_eq_nil_of_le (Nat.le_add_right _ _), List.append_nil]

/-! ## Devices at hand -/

namespace Cursor

theorem atEnd_of_seek {c c' : Cursor} {pos : Nat} (h : c.seek (.finish 0) = (.ok pos, c')) :
    c'.bytes = c.bytes ∧ c'.pos = c'.bytes.length := by
  obtain ⟨ht, hf⟩ := seek_ok h
  rw [Origin.targetWithin?_eq_some_iff] at ht
  have hb : c'.bytes = c.bytes := congrArg File.bytes hf
  have hp : c'.pos = pos := congrArg File.pos hf
  refine ⟨hb, ?_⟩
  have := ht.1
  simp only [Origin.target, file, Int.add_zero] at this
  rw [hp, hb]
  omega

theorem bytes_seek (c : Cursor) (o : Origin) : (c.seek o).2.bytes = c.bytes := by
  unfold seek
  split <;> rfl

theorem bytes_write_atEnd {c : Cursor} (h : c.pos = c.bytes.length) (src : Bytes) :
    (c.write src).pos = (c.write src).bytes.length ∧ (c.write src).bytes = c.bytes ++ src := by
  have hb : (c.write src).bytes = c.bytes ++ src := by
    rw [bytes_write, h, overwrite_at_end]
  refine ⟨?_, hb⟩
  rw [hb, List.length_append, ← h]
  rfl

instance : Appendable Cursor where
  bytes := Cursor.bytes
  AtEnd c := c.pos = c.bytes.length
  bytes_read _ _ := rfl
  bytes_seek := Cursor.bytes_seek
  bytes_close _ := rfl
  atEnd_seek h := (atEnd_of_seek h).2
  write_ok {c c' src k} hc h := by
    cases h
    rw [List.take_length]
    exact bytes_write_atEnd hc src
  write_error _ h := by cases h

end Cursor

namespace Faulty

/-- A write takes the first bytes of its source, or none. -/
theorem write_spec (d : Faulty) (src : Bytes) :
    (∃ k, (d.write src).1 = .ok k ∧ (d.write src).2.cursor = d.cursor.write (src.take k)) ∨
      (d.write src).2.cursor = d.cursor ∧ ∀ k, (d.write src).1 = .ok k → k = 0 := by
  dsimp only [write]
  split
  · exact .inr ⟨rfl, fun k hk => by cases hk⟩
  split
  · split
    · exact .inr ⟨rfl, fun k hk => by cases hk; rfl⟩
    · exact .inr ⟨rfl, fun k hk => by cases hk⟩
  · refine .inl ⟨_, rfl, ?_⟩
    have hfirst (bs : Bytes) (limit : Option Nat) : takeLimited bs limit <+: bs :=
      take_length_takeLimited bs limit ▸ List.take_prefix _ _
    rw [← List.prefix_iff_eq_take.1 ((hfirst _ d.writeQuota).trans (hfirst _ d.writeChunk))]

theorem read_keeps (d : Faulty) (n : Nat) : (d.read n).2.cursor.bytes = d.cursor.bytes := by
  dsimp only [read]
  split
  · rfl
  split
  · rfl
  · rfl

theorem seek_keeps (d : Faulty) (o : Origin) : (d.seek o).2.cursor.bytes = d.cursor.bytes := by
  dsimp only [seek]
  split
  · rfl
  · exact d.cursor.bytes_seek o

instance : Appendable Faulty where
  bytes d := d.cursor.bytes
  AtEnd d := d.cursor.pos = d.cursor.bytes.length
  bytes_read := read_keeps
  bytes_seek := seek_keeps
  bytes_close _ := rfl
  atEnd_seek {d d' pos} h := by
    change d.seek (.finish 0) = _ at h
    dsimp only [seek] at h
    split at h
    · cases h
    · cases hc : d.cursor.seek (.finish 0) with
      | mk r c =>
        rw [hc] at h
        cases h
        exact (Cursor.atEnd_of_seek hc).2
  write_ok {d d' src k} hd h := by
    change d.write src = _ at h
    have hspec := d.write_spec src
    rw [h] at hspec
    obtain ⟨k', hk, hc⟩ | ⟨hc, hz⟩ := hspec
    · cases hk
      change d'.cursor = _ at hc
      rw [hc]
      exact Cursor.bytes_write_atEnd hd _
    · change d'.cursor = _ at hc
      rw [hc, hz k rfl, List.take_zero, List.append_nil]
      exact ⟨hd, rfl⟩
  write_error {d d' src e} hd h := by
    change d.write src = _ at h
    have hspec := d.write_spec src
    rw [h] at hspec
    obtain ⟨k', hk, _⟩ | ⟨hc, _⟩ := hspec
    · cases hk
    · change d'.cursor = _ at hc
      rw [hc]
      exact ⟨hd, rfl⟩

end Faulty

namespace FileDevice

/-- The bytes of the file; a directory has none. -/
def bytes (s : FileDevice) : Bytes := (s.file.name.map s.disk.bytes).getD []

theorem read_keeps (s : FileDevice) (n : Nat) : (s.read n).2.bytes = s.bytes := by
  unfold read
  by_cases hr : s.file.readable = false
  · rw [if_pos hr]
  · rw [if_neg hr]
    cases hn : s.file.name with
    | none => rfl
    | some name => simp [bytes, hn]

theorem seek_keeps (s : FileDevice) (o : Origin) :
    (s.seek o).2.disk = s.disk ∧ (s.seek o).2.file.name = s.file.name := by
  unfold seek
  split <;> exact ⟨rfl, rfl⟩

/-- At the end of the file a write appends, also where the file is open for nothing else. -/
theorem write_spec {s : FileDevice}
    (hs : ∀ name, s.file.name = some name → s.file.pos = (s.disk.bytes name).length) (src : Bytes) :
    (∀ name, (s.write src).2.file.name = some name →
      (s.write src).2.file.pos = ((s.write src).2.disk.bytes name).length) ∧
      (s.write src).2.bytes = s.bytes ++ src.take ((s.write src).1.toOption.getD 0) := by
  unfold write
  by_cases hw : s.file.writable = false
  · rw [if_pos hw]
    exact ⟨hs, (List.append_nil _).symm⟩
  rw [if_neg hw]
  cases hn : s.file.name with
  | none => exact ⟨fun name h => (by cases hn.symm.trans h), (List.append_nil _).symm⟩
  | some name =>
    dsimp only
    by_cases hsrc : src = []
    · rw [if_pos hsrc]
      exact ⟨hs, (List.append_nil _).symm⟩
    rw [if_neg hsrc]
    have hend : (if s.file.appends then s.length else s.file.pos) = (s.disk.bytes name).length := by
      have hl : s.length = (s.disk.bytes name).length := by
        rw [length, hn, Disk.length, Disk.bytes, Store.length_bytes]
      rw [hl, hs name hn, ite_self]
    rw [hend]
    by_cases hp : maxPosition ≤ (s.disk.bytes name).length
    · rw [if_pos hp]
      exact ⟨hs, (List.append_nil _).symm⟩
    rw [if_neg hp]
    have hnew : (s.disk.put name ((s.disk.store name).overwrite (s.disk.bytes name).length
        src)).bytes name = s.disk.bytes name ++ src := by
      rw [Disk.bytes_put_self, Store.bytes_overwrite]
      exact overwrite_at_end _ _
    refine ⟨fun other h => ?_, ?_⟩
    · cases hn.symm.trans h
      rw [hnew, List.length_append]
    · simp only [bytes, hn, Option.map_some, Option.getD_some, Except.toOption, List.take_length]
      exact hnew

instance : Appendable FileDevice where
  bytes := FileDevice.bytes
  AtEnd s := ∀ name, s.file.name = some name → s.file.pos = (s.disk.bytes name).length
  bytes_read := read_keeps
  bytes_seek s o := by
    obtain ⟨hd, hn⟩ := s.seek_keeps o
    change (s.seek o).2.bytes = s.bytes
    rw [bytes, bytes, hd, hn]
  bytes_close _ := rfl
  atEnd_seek {s s' pos} h name hname := by
    change s.seek (.finish 0) = _ at h
    unfold seek at h
    split at h
    · next ht =>
      cases h
      rw [Origin.targetWithin?_eq_some_iff] at ht
      have hl : s.length = (s.disk.bytes name).length := by
        rw [length, hname, Disk.length, Disk.bytes, Store.length_bytes]
      have := ht.1
      simp only [Origin.target, Int.add_zero] at this
      change pos = (s.disk.bytes name).length
      omega
    · cases h
  write_ok {s s' src k} hs h := by
    have hspec := write_spec hs src
    rw [show s.write src = _ from h] at hspec
    exact hspec
  write_error {s s' src e} hs h := by
    have hspec := write_spec hs src
    rw [show s.write src = _ from h] at hspec
    exact ⟨hspec.1, hspec.2.trans (List.append_nil _)⟩

end FileDevice

/-! ## Watching -/

/-- Any device, with a note of failed output. -/
structure Watched (σ : Type) where
  device : σ
  failed : Bool := false

/-- Whether a write took nothing of what it was given, or failed other than by an interruption. -/
def writeFails (src : Bytes) : Except IoError Nat → Bool
  | .ok k => k == 0 && !src.isEmpty
  | .error e => e.kind != .interrupted

/-- Whether a seek to the end failed. Any other one may, as one to before the start does. -/
def seekFails (o : Origin) (r : Except IoError Nat) : Bool := o == .finish 0 && !r.isOk

namespace Watched

variable {σ : Type} [Device σ]

instance : Device (Watched σ) where
  read s n := let r := Device.read s.device n; (r.1, { s with device := r.2 })
  write s src :=
    let r := Device.write s.device src
    (r.1, { device := r.2, failed := s.failed || writeFails src r.1 })
  seek s o :=
    let r := Device.seek s.device o
    (r.1, { device := r.2, failed := s.failed || seekFails o r.1 })
  close s := let r := Device.close s.device; (r.1, { s with device := r.2 })
  patience s := Device.patience s.device
  length_read_le h := Device.length_read_le h
  patience_read_lt h := Device.patience_read_lt h
  patience_write_lt h := Device.patience_write_lt h

variable [Appendable σ] {s s' s'' : Watched σ}

def bytes (s : Watched σ) : Bytes := Appendable.bytes s.device

def AtEnd (s : Watched σ) : Prop := Appendable.AtEnd s.device

/-- A note stays. -/
def Notes (s s' : Watched σ) : Prop := s'.failed = false → s.failed = false

/-- `s'` comes from `s` without a change of the bytes. -/
structure Idle (s s' : Watched σ) : Prop where
  bytes : s'.bytes = s.bytes
  notes : Notes s s'

theorem Idle.refl (s : Watched σ) : Idle s s := ⟨rfl, id⟩

theorem Idle.trans (h : Idle s s') (h' : Idle s' s'') : Idle s s'' :=
  ⟨h'.bytes.trans h.bytes, fun hf => h.notes (h'.notes hf)⟩

theorem idle_read (s : Watched σ) (n : Nat) : Idle s (Device.read s n).2 :=
  ⟨Appendable.bytes_read s.device n, id⟩

theorem idle_seek (s : Watched σ) (o : Origin) : Idle s (Device.seek s o).2 :=
  ⟨Appendable.bytes_seek s.device o, fun hf => (Bool.or_eq_false_iff.1 hf).1⟩

theorem idle_close (s : Watched σ) : Idle s (Device.close s).2 :=
  ⟨Appendable.bytes_close s.device, id⟩

theorem along_idle : Device.Along (Idle : Watched σ → Watched σ → Prop) where
  refl := .refl
  trans := .trans
  read := idle_read
  seek := idle_seek

/-- A seek to the end goes there or leaves its note. -/
theorem seek_end (s : Watched σ) :
    ∃ r s', Device.seek s (.finish 0) = (r, s') ∧ Idle s s' ∧
      ((∃ pos, r = .ok pos ∧ s'.AtEnd) ∨ ∃ e, r = .error e ∧ s'.failed = true) := by
  refine ⟨_, _, rfl, idle_seek s (.finish 0), ?_⟩
  rcases hr : Device.seek s.device (.finish 0) with ⟨e | pos, d⟩
  · refine .inr ⟨e, rfl, Bool.or_eq_true_iff.2 (.inr ?_)⟩
    rfl
  · exact .inl ⟨pos, rfl, Appendable.atEnd_seek hr⟩

/-! ## Whole writes at the end -/

/-- The interruptions before a call that is not interrupted leave nothing. -/
theorem writeChunk_atEnd (hs : s.AtEnd) {src : Bytes} (hsrc : src ≠ []) :
    ∃ r s', writeChunk s src = (r, s') ∧ Notes s s' ∧ s'.AtEnd ∧
      ((∃ k ≤ src.length, r = .ok k ∧ s'.bytes = s.bytes ++ src.take k ∧
          (k = 0 → s'.failed = true)) ∨
        (∃ e, r = .error e) ∧ s'.bytes = s.bytes ∧ s'.failed = true) := by
  fun_induction writeChunk s src with
  | case1 s r k hr =>
    obtain ⟨hend, hbytes⟩ := Appendable.write_ok hs (Prod.ext hr rfl)
    refine ⟨_, r.2, rfl, fun hf => (Bool.or_eq_false_iff.1 hf).1, hend,
      .inl ⟨k, WritesWithin.write_le (σ := σ) hr, rfl, hbytes, fun hk => ?_⟩⟩
    have hfails : writeFails src r.1 = true := by simp [hr, hk, writeFails, hsrc]
    exact Bool.or_eq_true_iff.2 (.inr hfails)
  | case2 s r e hr hk ih =>
    obtain ⟨hend, hbytes⟩ := Appendable.write_error hs (Prod.ext hr rfl)
    obtain ⟨r', s', hw, hn, hs', hcases⟩ := ih hend
    refine ⟨r', s', hw, fun hf => (Bool.or_eq_false_iff.1 (hn hf)).1, hs', ?_⟩
    rwa [show r.2.bytes = s.bytes from hbytes] at hcases
  | case3 s r e hr hk =>
    obtain ⟨hend, hbytes⟩ := Appendable.write_error hs (Prod.ext hr rfl)
    have hfails : writeFails src r.1 = true := by simp [hr, hk, writeFails]
    exact ⟨_, r.2, rfl, fun hf => (Bool.or_eq_false_iff.1 hf).1, hend,
      .inr ⟨⟨e, rfl⟩, hbytes, Bool.or_eq_true_iff.2 (.inr hfails)⟩⟩

theorem writeFully_atEnd (hs : s.AtEnd) (src : Bytes) :
    (∃ s', writeFully s src = (⟨src.length, none⟩, s') ∧ Notes s s' ∧ s'.AtEnd ∧
        s'.bytes = s.bytes ++ src) ∨
      ∃ k e s', writeFully s src = (⟨k, some e⟩, s') ∧ s.bytes <+: s'.bytes ∧ s'.failed = true := by
  induction hn : src.length using Nat.strongRecOn generalizing s src with
  | ind n ih =>
    by_cases hsrc : src = []
    · subst hsrc
      exact .inl ⟨s, by simp [writeFully_nil, ← hn], id, hs, (List.append_nil _).symm⟩
    obtain ⟨r, s₁, hr, hnotes, hs₁, ⟨k, hk, rfl, hbytes, hzero⟩ | ⟨⟨e, rfl⟩, hbytes, hfailed⟩⟩ :=
      writeChunk_atEnd hs hsrc
    · have hp : s.bytes <+: s₁.bytes := hbytes ▸ List.prefix_append _ _
      by_cases hz : k = 0
      · refine .inr ⟨0, .nothingAccepted, s₁, ?_, hp, hzero hz⟩
        rw [writeFully, dif_neg hsrc]
        simp only [hr, hz, dif_pos]
      · have hlt : (src.drop k).length < n := by
          rw [List.length_drop]
          omega
        have hsum : k + (src.drop k).length = n := by
          rw [List.length_drop]
          omega
        have hone : writeFully s src = (⟨k + (writeFully s₁ (src.drop k)).1.done,
            (writeFully s₁ (src.drop k)).1.error⟩, (writeFully s₁ (src.drop k)).2) := by
          rw [writeFully, dif_neg hsrc]
          simp only [hr, dif_neg hz]
        rcases ih _ hlt hs₁ _ rfl with ⟨s₂, hr₂, hn₂, hs₂, hb₂⟩ | ⟨k', e, s₂, hr₂, hp₂, hf₂⟩
        · refine .inl ⟨s₂, ?_, fun hf => hnotes (hn₂ hf), hs₂, ?_⟩
          · rw [hone, hr₂, hsum]
          · rw [hb₂, hbytes, List.append_assoc, List.take_append_drop]
        · exact .inr ⟨_, e, s₂, by rw [hone, hr₂], hp.trans hp₂, hf₂⟩
    · refine .inr ⟨0, e, s₁, ?_, hbytes ▸ List.prefix_refl _, hfailed⟩
      rw [writeFully, dif_neg hsrc]
      simp only [hr]

/-- What whole writes append to a device that was at its end as `s`. -/
def appendingSink (s : Watched σ) : Text.Sink (Watched σ) where
  Took out s' := Notes s s' ∧ s'.AtEnd ∧ s'.bytes = s.bytes ++ out
  Broke s' := s.bytes <+: s'.bytes ∧ s'.failed = true
  whole {out s₁} src hs := by
    obtain ⟨hn, hend, hb⟩ := hs
    rcases writeFully_atEnd hend src with ⟨s', hr, hn', hend', hb'⟩ | ⟨k, e, s', hr, hp, hf⟩
    · refine .inl ⟨s', hr, fun hf => hn (hn' hf), hend', ?_⟩
      rw [hb', hb, List.append_assoc]
    · exact .inr ⟨k, e, s', hr, (hb ▸ List.prefix_append _ _).trans hp, hf⟩

end Watched

end ByteChannel
