import ByteChannel.Transfer

/-!
# What a device receives

A device takes the first bytes of what it is given, perhaps none, or fails and takes nothing. What
it has received is what it took, in the order of its calls. A whole write adds the first bytes of
its source to that, and all of them exactly where it reports no failure.
-/

namespace ByteChannel

class Receiver (σ : Type) [Device σ] extends WritesWithin σ where
  received : σ → Bytes
  write_ok : ∀ {s s' : σ} {src k}, Device.write s src = (.ok k, s') →
    received s' = received s ++ src.take k
  write_error : ∀ {s s' : σ} {src e}, Device.write s src = (.error e, s') →
    received s' = received s
  received_seek : ∀ (s : σ) (o : Origin), received (Device.seek s o).2 = received s
  received_close : ∀ s : σ, received (Device.close s).2 = received s

namespace Receiver

variable {σ : Type} [Device σ] [Receiver σ]

/-- The interruptions before a call that is not interrupted leave nothing. -/
theorem writeChunk_received (s : σ) (src : Bytes) :
    ∃ r s', writeChunk s src = (r, s') ∧
      ((∃ k ≤ src.length, r = .ok k ∧ received s' = received s ++ src.take k) ∨
        (∃ e, r = .error e) ∧ received s' = received s) := by
  fun_induction writeChunk s src with
  | case1 s r k hr =>
    exact ⟨_, r.2, rfl, .inl ⟨k, WritesWithin.write_le hr, rfl, write_ok (Prod.ext hr rfl)⟩⟩
  | case2 s r e hr hk ih =>
    have hkept : received r.2 = received s := write_error (Prod.ext hr rfl)
    rwa [hkept] at ih
  | case3 s r e hr hk => exact ⟨_, r.2, rfl, .inr ⟨⟨e, rfl⟩, write_error (Prod.ext hr rfl)⟩⟩

theorem writeFully_received (s : σ) (src : Bytes) :
    ∃ k error s', writeFully s src = (⟨k, error⟩, s') ∧ k ≤ src.length ∧
      received s' = received s ++ src.take k ∧ (error = none ↔ k = src.length) := by
  induction hn : src.length using Nat.strongRecOn generalizing s src with
  | ind n ih =>
    by_cases hsrc : src = []
    · subst hsrc
      exact ⟨0, none, s, writeFully_nil s, Nat.zero_le _, by simp, by simp [← hn]⟩
    have hpos : 0 < n := hn ▸ List.length_pos_iff.2 hsrc
    obtain ⟨r, s₁, hr, ⟨k, hk, rfl, hs₁⟩ | ⟨⟨e, rfl⟩, hs₁⟩⟩ := writeChunk_received s src
    · by_cases hz : k = 0
      · refine ⟨0, some .nothingAccepted, s₁, ?_, Nat.zero_le _, by simpa [hz] using hs₁, ?_⟩
        · rw [writeFully, dif_neg hsrc]
          simp only [hr, hz, dif_pos]
        · simp only [reduceCtorEq, false_iff]
          omega
      · have hlt : (src.drop k).length < n := by
          rw [List.length_drop]
          omega
        obtain ⟨k', error, s₂, hr₂, hk', hs₂, herror⟩ := ih _ hlt s₁ _ rfl
        rw [List.length_drop] at hk' herror
        refine ⟨k + k', error, s₂, ?_, by omega, ?_, herror.trans (by omega)⟩
        · rw [writeFully, dif_neg hsrc]
          simp only [hr, dif_neg hz, hr₂]
        · rw [hs₂, hs₁, List.append_assoc, List.take_add]
    · refine ⟨0, some e, s₁, ?_, Nat.zero_le _, by simpa using hs₁, ?_⟩
      · rw [writeFully, dif_neg hsrc]
        simp only [hr]
      · simp only [reduceCtorEq, false_iff]
        omega

end Receiver

/-! ## Receiving devices at hand -/

/-- Any device, with a record of what it took. -/
structure Recorder (σ : Type) where
  device : σ
  received : Bytes := []

namespace Recorder

variable {σ : Type} [Device σ]

instance : Device (Recorder σ) where
  read s n := let r := Device.read s.device n; (r.1, { s with device := r.2 })
  write s src :=
    let r := Device.write s.device src
    match r.1 with
    | .ok k => (.ok k, { device := r.2, received := s.received ++ src.take k })
    | .error e => (.error e, { s with device := r.2 })
  seek s o := let r := Device.seek s.device o; (r.1, { s with device := r.2 })
  close s := let r := Device.close s.device; (r.1, { s with device := r.2 })
  patience s := Device.patience s.device
  length_read_le h := Device.length_read_le h
  patience_read_lt h := Device.patience_read_lt h
  patience_write_lt {s src e} h hk := by
    dsimp only at h ⊢
    split at h
    · cases h
    · next hr =>
      cases h
      exact Device.patience_write_lt hr hk

instance [WritesWithin σ] : WritesWithin (Recorder σ) where
  write_le {s src k} h := by
    dsimp only [Device.write] at h
    split at h
    · next hr =>
      cases h
      exact WritesWithin.write_le hr
    · cases h

instance [WritesWithin σ] : Receiver (Recorder σ) where
  received := Recorder.received
  write_ok {s s' src k} h := by
    dsimp only [Device.write] at h
    split at h <;> cases h
    rfl
  write_error {s s' src e} h := by
    dsimp only [Device.write] at h
    split at h <;> cases h
    rfl
  received_seek _ _ := rfl
  received_close _ := rfl

end Recorder

/-- Each write takes as much, or fails, as the schedule says; when it is used up every write takes
all. -/
structure Scheduled where
  writes : List (Except IoError Nat) := []

namespace Scheduled

def write (s : Scheduled) (src : Bytes) : Except IoError Nat × Scheduled :=
  match s.writes with
  | [] => (.ok src.length, s)
  | .ok k :: writes => (.ok (min k src.length), ⟨writes⟩)
  | .error e :: writes => (.error e, ⟨writes⟩)

instance : Device Scheduled where
  read s _ := (.ok [], s)
  write := write
  seek s _ := (.ok 0, s)
  close s := (.ok (), s)
  patience s := s.writes.length
  length_read_le h := by
    cases h
    exact Nat.zero_le _
  patience_read_lt h := by cases h
  patience_write_lt {s src e} h hk := by
    unfold write at h ⊢
    split at h <;> cases h
    next hw =>
    rw [hw]
    exact Nat.lt_succ_self _

instance : WritesWithin Scheduled where
  write_le {s src k} h := by
    change (s.write src).1 = .ok k at h
    unfold write at h
    split at h <;> cases h
    · exact Nat.le_refl _
    · exact Nat.min_le_right _ _

end Scheduled

end ByteChannel
