import ByteChannel.Proofs.Device.Reliable

/-!
# Devices whose reads may fail

A faltering device shows a file, and a read from it may fail at any time and for any reason. A
failed read moves nothing, and the next one may succeed. How many reads have failed is counted
beside the device, interruptions apart.
-/

namespace ByteChannel

class Faltering (σ : Type) [Device σ] where
  /-- The last position that the device can take. -/
  top : Nat
  Shows : σ → File → Prop
  read_ok : ∀ {s s' : σ} {f n bs}, Shows s f → Device.read s n = (.ok bs, s') →
    bs <+: f.rest ∧ (bs = [] → n = 0 ∨ f.rest = []) ∧ Shows s' (f.advance bs.length)
  read_error : ∀ {s s' : σ} {f n e}, Shows s f → Device.read s n = (.error e, s') → Shows s' f
  seek_ok : ∀ {s s' : σ} {f o pos}, Shows s f → Device.seek s o = (.ok pos, s') →
    o.targetWithin? f.pos f.bytes.length top = some pos ∧ Shows s' { f with pos := pos }
  seek_error : ∀ {s s' : σ} {f o e}, Shows s f → Device.seek s o = (.error e, s') →
    o.targetWithin? f.pos f.bytes.length top = none

/-- A device with the number of its reads that failed. -/
structure Tallied (σ : Type) where
  device : σ
  failures : Nat := 0

namespace Tallied

variable {σ : Type} [Device σ]

/-- What an outcome adds to the failures. An interruption is none. -/
def weight : Except IoError Bytes → Nat
  | .error e => if e.kind = .interrupted then 0 else 1
  | .ok _ => 0

instance : Device (Tallied σ) where
  read s n := let r := Device.read s.device n; (r.1, ⟨r.2, s.failures + weight r.1⟩)
  write s src := let r := Device.write s.device src; (r.1, { s with device := r.2 })
  seek s o := let r := Device.seek s.device o; (r.1, { s with device := r.2 })
  close s := let r := Device.close s.device; (r.1, { s with device := r.2 })
  patience s := Device.patience s.device
  length_read_le h := Device.length_read_le h
  patience_read_lt h := Device.patience_read_lt h
  patience_write_lt h := Device.patience_write_lt h

end Tallied

namespace Faltering

open Tallied

variable {σ : Type} [Device σ] [Faltering σ] {s : Tallied σ} {f : File}

theorem readChunk_shows (hs : Shows s.device f) (n : Nat) :
    (∃ bs s', readChunk s n = (.ok bs, s') ∧ bs <+: f.rest ∧ (bs = [] → n = 0 ∨ f.rest = []) ∧
      Shows s'.device (f.advance bs.length) ∧ s'.failures = s.failures) ∨
    ∃ e s', readChunk s n = (.error e, s') ∧ Shows s'.device f ∧ s'.failures = s.failures + 1 := by
  fun_induction readChunk s n with
  | case1 s r bs hr =>
    left
    obtain ⟨hp, he, hs'⟩ := read_ok hs (Prod.ext hr rfl)
    refine ⟨bs, r.2, rfl, hp, he, hs', ?_⟩
    change s.failures + weight r.1 = s.failures
    rw [hr]
    rfl
  | case2 s r e hr hk ih =>
    have hsame : r.2.failures = s.failures := by
      change s.failures + weight r.1 = s.failures
      rw [hr, weight, if_pos hk]
      rfl
    rw [← hsame]
    exact ih (read_error hs (Prod.ext hr rfl))
  | case3 s r e hr hk =>
    right
    refine ⟨e, r.2, rfl, read_error hs (Prod.ext hr rfl), ?_⟩
    change s.failures + weight r.1 = s.failures + 1
    rw [hr, weight, if_neg hk]

/-- What a whole read made of a device: it ends early only at the end of the file or by a failure,
and one failure is counted if it reports one. -/
structure Fetches (r : Intake × Tallied σ) (s : Tallied σ) (f : File) (n : Nat) : Prop where
  isPrefix : r.1.bytes <+: f.rest
  shows : Shows r.2.device (f.advance r.1.bytes.length)
  whole : r.1.error = none →
    r.2.failures = s.failures ∧ (r.1.bytes.length = n ∨ (f.advance r.1.bytes.length).rest = [])
  failed : r.1.error ≠ none → r.2.failures = s.failures + 1 ∧ r.1.bytes.length < n

theorem readFully_fetches (hs : Shows s.device f) (n : Nat) : Fetches (readFully s n) s f n := by
  induction n using Nat.strongRecOn generalizing s f with
  | ind n ih =>
    by_cases hn : n = 0
    · subst hn
      rw [readFully_zero]
      exact ⟨List.nil_prefix, hs, fun _ => ⟨rfl, .inl rfl⟩, fun h => absurd rfl h⟩
    rw [readFully, dif_neg hn]
    obtain ⟨bs, s₁, hr, hp, he, hs₁, hf₁⟩ | ⟨e, s₁, hr, hs₁, hf₁⟩ := readChunk_shows hs n
    · by_cases hb : bs = []
      · have hrest : f.rest = [] := (he hb).resolve_left hn
        simp only [hr, dif_pos hb]
        rw [hb] at hs₁
        exact ⟨List.nil_prefix, hs₁, fun _ => ⟨hf₁, .inr (by simpa using hrest)⟩,
          fun h => absurd rfl h⟩
      · have hpos := List.length_pos_iff.2 hb
        have hle : bs.length ≤ n := length_readChunk_le (congrArg Prod.fst hr)
        have hi := ih (n - bs.length) (by omega) hs₁
        simp only [hr, dif_neg hb]
        refine ⟨?_, ?_, fun hnone => ?_, fun hsome => ?_⟩
        · obtain ⟨more, hmore⟩ := hp
          have hrest := hi.isPrefix
          rw [File.rest_advance, ← hmore, List.drop_left] at hrest
          rw [← hmore]
          exact (List.prefix_append_right_inj bs).2 hrest
        · rw [List.length_append, ← File.advance_advance]
          exact hi.shows
        · obtain ⟨hsame, hend⟩ := hi.whole hnone
          rw [List.length_append, ← File.advance_advance]
          exact ⟨hsame.trans hf₁, hend.imp_left fun hl => by omega⟩
        · obtain ⟨hmore, hlt⟩ := hi.failed hsome
          rw [List.length_append]
          exact ⟨by rw [hmore, hf₁], by omega⟩
    · simp only [hr]
      exact ⟨List.nil_prefix, hs₁, fun h => absurd h (Option.some_ne_none e),
        fun _ => ⟨hf₁, Nat.pos_of_ne_zero hn⟩⟩

theorem seek_shows (hs : Shows s.device f) {o : Origin} {pos : Nat}
    (ht : o.targetWithin? f.pos f.bytes.length (top σ) = some pos) :
    ∃ s', Device.seek s o = (.ok pos, s') ∧ Shows s'.device { f with pos := pos } ∧
      s'.failures = s.failures := by
  rcases hr : Device.seek s.device o with ⟨e | pos', d⟩
  · rw [seek_error hs hr] at ht
    cases ht
  · obtain ⟨ht', hs'⟩ := seek_ok hs hr
    rw [ht, Option.some.injEq] at ht'
    subst ht'
    refine ⟨⟨d, s.failures⟩, ?_, hs', rfl⟩
    simp only [Device.seek, hr]

/-- Going back over what was read. -/
theorem seek_back_shows (hs : Shows s.device f) {n : Nat} (hn : n ≤ f.pos)
    (ht : f.pos - n ≤ top σ) :
    ∃ s', Device.seek s (.current (-(n : Int))) = (.ok (f.pos - n), s') ∧
      Shows s'.device (f.back n) ∧ s'.failures = s.failures := by
  apply seek_shows hs
  rw [Origin.targetWithin?_eq_some_iff, Origin.target]
  omega

theorem seek_end_shows (hs : Shows s.device f) (ht : f.bytes.length ≤ top σ) :
    ∃ s', Device.seek s (.finish 0) = (.ok f.bytes.length, s') ∧ Shows s'.device f.atEnd ∧
      s'.failures = s.failures := by
  apply seek_shows hs
  rw [Origin.targetWithin?_eq_some_iff, Origin.target]
  omega

end Faltering

/-! ## A faltering device at hand -/

/-- A cursor that fails at some of the reads to come, as the schedule says. -/
structure Flaky where
  cursor : Cursor
  failing : List (Option IoError) := []

namespace Flaky

def read (d : Flaky) (n : Nat) : Except IoError Bytes × Flaky :=
  let failing := d.failing.tail
  match d.failing.head?.join with
  | some e => (.error e, { d with failing := failing })
  | none => let r := d.cursor.read n; (.ok r.1, ⟨r.2, failing⟩)

instance : Device Flaky where
  read := read
  write d src := (.ok src.length, { d with cursor := d.cursor.write src })
  seek d o := let r := d.cursor.seek o; (r.1, { d with cursor := r.2 })
  close d := (.ok (), d)
  patience d := d.failing.length
  length_read_le {d n bs} h := by
    unfold read at h
    split at h <;> cases h
    exact Cursor.length_read_le _ _
  patience_read_lt {d n e} h _ := by
    unfold read at h ⊢
    split at h <;> cases h
    next he =>
    cases hl : d.failing with
    | nil =>
      rw [hl] at he
      cases he
    | cons outcome more => exact Nat.lt_succ_self _
  patience_write_lt h := by cases h

instance : Faltering Flaky where
  top := maxWord
  Shows d f := d.cursor.file = f
  read_ok {d d' f n bs} hf h := by
    change d.read n = _ at h
    unfold read at h
    split at h <;> cases h
    subst hf
    obtain ⟨hp, he⟩ := d.cursor.read_shows (m := n) (n := n) id
    exact ⟨hp, he, rfl⟩
  read_error {d d' f n e} hf h := by
    change d.read n = _ at h
    unfold read at h
    split at h <;> cases h
    exact hf
  seek_ok {d d' f o pos} hf h := by
    rcases hc : d.cursor.seek o with ⟨r, cursor⟩
    simp only [Device.seek, hc] at h
    cases h
    subst hf
    exact Cursor.seek_ok hc
  seek_error {d d' f o e} hf h := by
    rcases hc : d.cursor.seek o with ⟨r, cursor⟩
    simp only [Device.seek, hc] at h
    cases h
    subst hf
    exact (Cursor.seek_error hc).1

end Flaky

end ByteChannel
