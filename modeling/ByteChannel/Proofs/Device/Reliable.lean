import ByteChannel.Device.Faulty
import ByteChannel.Proofs.File
import ByteChannel.Transfer

/-!
# Devices that never fail

A reliable device shows a file. A transfer may move any part of what was asked, but not nothing, and
may be interrupted as long as the device's patience lasts; only a seek to a place that no position
of the device names is refused. Whole transfers over such a device are those of the file.
-/

namespace ByteChannel

class Reliable (σ : Type) [Device σ] extends WritesWithin σ where
  /-- The last position that the device can take. -/
  top : Nat
  Shows : σ → File → Prop
  read_ok : ∀ {s s' : σ} {f n bs}, Shows s f → Device.read s n = (.ok bs, s') →
    bs <+: f.rest ∧ (bs = [] → n = 0 ∨ f.rest = []) ∧ Shows s' (f.advance bs.length)
  read_error : ∀ {s s' : σ} {f n e}, Shows s f → Device.read s n = (.error e, s') →
    e.kind = .interrupted ∧ Shows s' f
  write_ok : ∀ {s s' : σ} {f src k}, Shows s f → src ≠ [] → Device.write s src = (.ok k, s') →
    0 < k ∧ Shows s' (f.write (src.take k))
  write_error : ∀ {s s' : σ} {f src e}, Shows s f → src ≠ [] →
    Device.write s src = (.error e, s') → e.kind = .interrupted ∧ Shows s' f
  seek_ok : ∀ {s s' : σ} {f o pos}, Shows s f → Device.seek s o = (.ok pos, s') →
    o.targetWithin? f.pos f.bytes.length top = some pos ∧ Shows s' { f with pos := pos }
  seek_error : ∀ {s s' : σ} {f o e}, Shows s f → Device.seek s o = (.error e, s') →
    o.targetWithin? f.pos f.bytes.length top = none ∧ Shows s' f
  close_ok : ∀ {s : σ} {f}, Shows s f →
    (Device.close s).1 = .ok () ∧ Shows (Device.close s).2 f

namespace Reliable

variable {σ : Type} [Device σ] [Reliable σ] {s : σ} {f : File}

theorem readChunk_shows (hs : Shows s f) (n : Nat) :
    ∃ bs s', readChunk s n = (.ok bs, s') ∧ bs <+: f.rest ∧ bs.length ≤ n ∧
      (bs = [] → n = 0 ∨ f.rest = []) ∧ Shows s' (f.advance bs.length) := by
  fun_induction readChunk s n with
  | case1 s r bs hr =>
    obtain ⟨hp, he, hs'⟩ := read_ok hs (Prod.ext hr rfl)
    exact ⟨bs, r.2, rfl, hp, Device.length_read_le hr, he, hs'⟩
  | case2 s r e hr hk ih => exact ih (read_error hs (Prod.ext hr rfl)).2
  | case3 s r e hr hk => exact absurd (read_error hs (Prod.ext hr rfl)).1 hk

theorem writeChunk_shows {src : Bytes} (hs : Shows s f) (hsrc : src ≠ []) :
    ∃ k s', writeChunk s src = (.ok k, s') ∧ 0 < k ∧ k ≤ src.length ∧
      Shows s' (f.write (src.take k)) := by
  fun_induction writeChunk s src with
  | case1 s r k hr =>
    obtain ⟨hk, hs'⟩ := write_ok hs hsrc (Prod.ext hr rfl)
    exact ⟨k, r.2, rfl, hk, WritesWithin.write_le hr, hs'⟩
  | case2 s r e hr hk ih => exact ih (write_error hs hsrc (Prod.ext hr rfl)).2
  | case3 s r e hr hk => exact absurd (write_error hs hsrc (Prod.ext hr rfl)).1 hk

/-- A whole read is short only at the end. -/
theorem readFully_shows (hs : Shows s f) (n : Nat) :
    ∃ s', readFully s n = (⟨f.rest.take n, none⟩, s') ∧
      Shows s' (f.advance (f.rest.take n).length) := by
  induction n using Nat.strongRecOn generalizing s f with
  | ind n ih =>
    by_cases hn : n = 0
    · subst hn
      exact ⟨s, by simp [readFully_zero], by simpa using hs⟩
    obtain ⟨bs, s₁, hr, hp, hl, he, hs₁⟩ := readChunk_shows hs n
    by_cases hb : bs = []
    · have hrest : f.rest = [] := (he hb).resolve_left hn
      refine ⟨s₁, ?_, ?_⟩
      · rw [readFully, dif_neg hn]
        simp [hr, hb, hrest]
      · simpa [hb, hrest] using hs₁
    · have hlt : n - bs.length < n := by
        have := List.length_pos_iff.2 hb
        omega
      obtain ⟨s₂, hr₂, hs₂⟩ := ih _ hlt hs₁
      have ht : bs ++ (f.advance bs.length).rest.take (n - bs.length) = f.rest.take n := by
        obtain ⟨more, hm⟩ := hp
        rw [File.rest_advance, ← hm, List.drop_left, List.take_append, List.take_of_length_le hl]
      refine ⟨s₂, ?_, ?_⟩
      · rw [readFully, dif_neg hn]
        simp only [hr, hb, dif_neg, not_false_iff, hr₂, ht]
      · rw [← ht, List.length_append, ← File.advance_advance]
        exact hs₂

/-- A whole write takes everything. -/
theorem writeFully_shows (hs : Shows s f) (src : Bytes) :
    ∃ s', writeFully s src = (⟨src.length, none⟩, s') ∧ Shows s' (f.write src) := by
  induction hn : src.length using Nat.strongRecOn generalizing s f src with
  | ind n ih =>
    by_cases hsrc : src = []
    · subst hsrc
      exact ⟨s, by simp [writeFully_nil, ← hn], by simpa using hs⟩
    obtain ⟨k, s₁, hr, hk, hle, hs₁⟩ := writeChunk_shows hs hsrc
    have hlt : (src.drop k).length < n := by
      rw [List.length_drop]
      omega
    obtain ⟨s₂, hr₂, hs₂⟩ := ih _ hlt hs₁ _ rfl
    refine ⟨s₂, ?_, ?_⟩
    · have hk0 : k ≠ 0 := by omega
      have hsum : k + (src.drop k).length = n := by
        rw [List.length_drop]
        omega
      rw [writeFully, dif_neg hsrc]
      simp only [hr, hk0, dif_neg, not_false_iff, hr₂, hsum]
    · rw [← List.take_append_drop k src, ← File.write_append]
      exact hs₂

/-- A seek answers what the file's position becomes, or is refused and moves nothing. -/
theorem seek_shows (hs : Shows s f) (o : Origin) :
    match o.targetWithin? f.pos f.bytes.length (top σ) with
    | some pos => ∃ s', Device.seek s o = (.ok pos, s') ∧ Shows s' { f with pos := pos }
    | none => ∃ e s', Device.seek s o = (.error e, s') ∧ Shows s' f := by
  rcases hr : Device.seek s o with ⟨e | pos, s'⟩
  · obtain ⟨ht, hs'⟩ := seek_error hs hr
    rw [ht]
    exact ⟨e, s', rfl, hs'⟩
  · obtain ⟨ht, hs'⟩ := seek_ok hs hr
    rw [ht]
    exact ⟨s', rfl, hs'⟩

/-- Going back over what was read. -/
theorem seek_back_shows (hs : Shows s f) {n : Nat} (hn : n ≤ f.pos) (ht : f.pos - n ≤ top σ) :
    ∃ s', Device.seek s (.current (-(n : Int))) = (.ok (f.pos - n), s') ∧ Shows s' (f.back n) := by
  have h := seek_shows hs (.current (-(n : Int)))
  have hw : (Origin.current (-(n : Int))).targetWithin? f.pos f.bytes.length (top σ) =
      some (f.pos - n) := by
    rw [Origin.targetWithin?_eq_some_iff, Origin.target]
    omega
  rw [hw] at h
  exact h

theorem seek_end_shows (hs : Shows s f) (ht : f.bytes.length ≤ top σ) :
    ∃ s', Device.seek s (.finish 0) = (.ok f.bytes.length, s') ∧ Shows s' f.atEnd := by
  have h := seek_shows hs (.finish 0)
  have hw : (Origin.finish 0).targetWithin? f.pos f.bytes.length (top σ) =
      some f.bytes.length := by
    rw [Origin.targetWithin?_eq_some_iff, Origin.target]
    omega
  rw [hw] at h
  exact h

end Reliable

/-! ## Reliable devices at hand -/

namespace Cursor

/-- The file that a cursor is. -/
def file (c : Cursor) : File := { bytes := c.bytes, pos := c.pos }

theorem fst_read_eq_take (c : Cursor) (n : Nat) : (c.read n).1 = c.file.rest.take n := by
  rw [fst_read, slice, Nat.add_sub_cancel_left]
  rfl

theorem file_write (c : Cursor) {src : Bytes} (h : src ≠ []) :
    (c.write src).file = c.file.write src := by
  rw [File.write_of_ne_nil _ h]
  simp [file, write, bytes]

theorem seek_ok {c c' : Cursor} {o : Origin} {pos : Nat} (h : c.seek o = (.ok pos, c')) :
    o.targetWithin? c.file.pos c.file.bytes.length maxWord = some pos ∧
      c'.file = { c.file with pos := pos } := by
  simp only [seek, ← Store.length_bytes] at h
  split at h
  · next ht =>
    cases h
    exact ⟨ht, rfl⟩
  · cases h

theorem seek_error {c c' : Cursor} {o : Origin} {e : IoError} (h : c.seek o = (.error e, c')) :
    o.targetWithin? c.file.pos c.file.bytes.length maxWord = none ∧ c' = c := by
  simp only [seek, ← Store.length_bytes] at h
  split at h
  · cases h
  · next ht =>
    cases h
    exact ⟨ht, rfl⟩

theorem read_shows (c : Cursor) {m n : Nat} (hm : m = 0 → n = 0) :
    (c.read m).1 <+: c.file.rest ∧ ((c.read m).1 = [] → n = 0 ∨ c.file.rest = []) := by
  rw [fst_read_eq_take]
  refine ⟨List.take_prefix _ _, ?_⟩
  intro h
  rw [List.take_eq_nil_iff] at h
  exact h.imp_left hm

instance : Reliable Cursor where
  top := maxWord
  Shows c f := c.file = f
  read_ok := by
    intro c c' f n bs hf h
    cases h
    subst hf
    obtain ⟨hp, he⟩ := read_shows c (m := n) (n := n) id
    exact ⟨hp, he, rfl⟩
  read_error := by
    intro c c' f n e _ h
    cases h
  write_ok := by
    intro c c' f src k hf hsrc h
    cases h
    subst hf
    refine ⟨List.length_pos_iff.2 hsrc, ?_⟩
    rw [List.take_length, file_write c hsrc]
  write_error := by
    intro c c' f src e _ _ h
    cases h
  seek_ok := by
    intro c c' f o pos hf h
    subst hf
    exact seek_ok h
  seek_error := by
    intro c c' f o e hf h
    subst hf
    obtain ⟨ht, rfl⟩ := seek_error h
    exact ⟨ht, rfl⟩
  close_ok hf := ⟨rfl, hf⟩

end Cursor

namespace Faulty

/-- Without quotas, and with room for a byte in every chunk. -/
structure Unlimited (d : Faulty) : Prop where
  readChunk : d.readChunk ≠ some 0
  writeChunk : d.writeChunk ≠ some 0
  readQuota : d.readQuota = none
  writeQuota : d.writeQuota = none
  seekQuota : d.seekQuota = none
  failsClose : d.failsClose = false

theorem limited_eq_zero {n : Nat} {limit : Option Nat} (hl : limit ≠ some 0)
    (h : limited n limit = 0) : n = 0 := by
  cases limit with
  | none => exact h
  | some m =>
    have hm : m ≠ 0 := fun hm => hl (by rw [hm])
    simp only [limited] at h
    omega

theorem take_length_takeLimited (bs : Bytes) (limit : Option Nat) :
    bs.take (takeLimited bs limit).length = takeLimited bs limit := by
  cases limit with
  | none => exact List.take_length
  | some m =>
    rw [takeLimited, List.length_take, ← List.take_eq_take_min]

theorem takeLimited_ne_nil {bs : Bytes} {limit : Option Nat} (hl : limit ≠ some 0)
    (hb : bs ≠ []) : takeLimited bs limit ≠ [] := by
  intro h
  have hz : limited bs.length limit = 0 := by
    rw [← length_takeLimited, h]
    rfl
  exact hb (List.length_eq_zero_iff.1 (limited_eq_zero hl hz))

instance : Reliable Faulty where
  top := maxWord
  Shows d f := d.Unlimited ∧ d.cursor.file = f
  read_ok := by
    rintro d d' f n bs ⟨hd, rfl⟩ h
    change d.read n = _ at h
    simp only [read, hd.readQuota] at h
    split at h
    · cases h
    · cases h
      obtain ⟨hp, he⟩ := d.cursor.read_shows (limited_eq_zero (n := n) hd.readChunk)
      exact ⟨hp, he, ⟨hd.1, hd.2, rfl, hd.4, hd.5, hd.6⟩, rfl⟩
  read_error := by
    rintro d d' f n e ⟨hd, rfl⟩ h
    change d.read n = _ at h
    simp only [read, hd.readQuota] at h
    split at h
    · cases h
      exact ⟨rfl, ⟨hd.1, hd.2, rfl, hd.4, hd.5, hd.6⟩, rfl⟩
    · cases h
  write_ok := by
    rintro d d' f src k ⟨hd, rfl⟩ hsrc h
    change d.write src = _ at h
    simp only [write, hd.writeQuota] at h
    split at h
    · cases h
    · cases h
      have ht := takeLimited_ne_nil hd.writeChunk hsrc
      refine ⟨List.length_pos_iff.2 ht, ⟨hd.1, hd.2, hd.3, rfl, hd.5, hd.6⟩, ?_⟩
      change (d.cursor.write (takeLimited src d.writeChunk)).file =
        d.cursor.file.write (src.take (takeLimited src d.writeChunk).length)
      rw [Cursor.file_write _ ht, take_length_takeLimited]
  write_error := by
    rintro d d' f src e ⟨hd, rfl⟩ hsrc h
    change d.write src = _ at h
    simp only [write, hd.writeQuota] at h
    split at h
    · cases h
      exact ⟨rfl, ⟨hd.1, hd.2, hd.3, rfl, hd.5, hd.6⟩, rfl⟩
    · cases h
  seek_ok := by
    rintro d d' f o pos ⟨hd, rfl⟩ h
    change d.seek o = _ at h
    simp only [seek, hd.seekQuota] at h
    cases hc : d.cursor.seek o with
    | mk r c =>
      rw [hc] at h
      cases h
      obtain ⟨ht, hf⟩ := Cursor.seek_ok hc
      exact ⟨ht, ⟨hd.1, hd.2, hd.3, hd.4, rfl, hd.6⟩, hf⟩
  seek_error := by
    rintro d d' f o e ⟨hd, rfl⟩ h
    change d.seek o = _ at h
    simp only [seek, hd.seekQuota] at h
    cases hc : d.cursor.seek o with
    | mk r c =>
      rw [hc] at h
      cases h
      obtain ⟨ht, rfl⟩ := Cursor.seek_error hc
      exact ⟨ht, ⟨hd.1, hd.2, hd.3, hd.4, rfl, hd.6⟩, rfl⟩
  close_ok := by
    rintro d f ⟨hd, rfl⟩
    refine ⟨?_, ⟨hd.1, hd.2, hd.3, hd.4, hd.5, hd.6⟩, rfl⟩
    change (if d.failsClose then Except.error closeFailed else .ok ()) = _
    rw [hd.failsClose]
    rfl

end Faulty

end ByteChannel
