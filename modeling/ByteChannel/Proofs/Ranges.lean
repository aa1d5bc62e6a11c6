import ByteChannel.Bytes

/-!
# Ranges that are there

Cutting out and laying over have a result whatever the range is. The forms here have one only where
the whole range lies inside the bytes, so that an operation written with them and one written
without agree exactly when no range of the operation is outside. The same holds for a difference,
which has a result here only where it does not fall below zero.
-/

namespace ByteChannel

/-- The range `start ≤ i < stop`, if it lies inside. -/
def slice? (bs : Bytes) (start stop : Nat) : Option Bytes :=
  if start ≤ stop ∧ stop ≤ bs.length then some (slice bs start stop) else none

/-- Lays bytes over a place, if all of it lies inside. -/
def overwrite? (old : Bytes) (pos : Nat) (new : Bytes) : Option Bytes :=
  if pos + new.length ≤ old.length then some (overwrite old pos new) else none

/-- The bytes, if a place of `n` bytes holds them. -/
def fitting? (n : Nat) (bs : Bytes) : Option Bytes := if bs.length ≤ n then some bs else none

/-- What is left of `m`, if it is at least `n`. -/
def subtract? (m n : Nat) : Option Nat := if n ≤ m then some (m - n) else none

theorem slice?_eq_some {bs : Bytes} {start stop : Nat} (hs : start ≤ stop)
    (hl : stop ≤ bs.length) : slice? bs start stop = some (slice bs start stop) :=
  if_pos ⟨hs, hl⟩

theorem bounds_of_slice? {bs text : Bytes} {start stop : Nat}
    (h : slice? bs start stop = some text) :
    start ≤ stop ∧ stop ≤ bs.length ∧ text.length = stop - start := by
  unfold slice? at h
  by_cases hin : start ≤ stop ∧ stop ≤ bs.length
  · rw [if_pos hin] at h
    cases h
    refine ⟨hin.1, hin.2, ?_⟩
    rw [length_slice]
    omega
  · rw [if_neg hin] at h
    cases h

theorem slice?_zero_eq_some {bs : Bytes} {stop : Nat} (hl : stop ≤ bs.length) :
    slice? bs 0 stop = some (bs.take stop) :=
  slice?_eq_some (Nat.zero_le _) hl

theorem slice?_to_end {bs : Bytes} {start : Nat} (hs : start ≤ bs.length) :
    slice? bs start bs.length = some (bs.drop start) := by
  rw [slice?_eq_some hs (Nat.le_refl _), slice, ← List.length_drop, List.take_length]

theorem overwrite?_eq_some {old new : Bytes} {pos : Nat} (h : pos + new.length ≤ old.length) :
    overwrite? old pos new = some (overwrite old pos new) :=
  if_pos h

theorem length_of_overwrite? {old new place : Bytes} {pos : Nat}
    (h : overwrite? old pos new = some place) : place.length = old.length := by
  unfold overwrite? at h
  by_cases hin : pos + new.length ≤ old.length
  · rw [if_pos hin] at h
    cases h
    rw [length_overwrite]
    omega
  · rw [if_neg hin] at h
    cases h

theorem fitting?_eq_some {n : Nat} {bs : Bytes} (h : bs.length ≤ n) : fitting? n bs = some bs :=
  if_pos h

theorem subtract?_eq_some {m n : Nat} (h : n ≤ m) : subtract? m n = some (m - n) := if_pos h

theorem getElem?_eq_some_getD {bs : Bytes} {i : Nat} (h : i < bs.length) :
    bs[i]? = some (bs.getD i 0) := by
  rw [List.getD_eq_getElem?_getD, List.getElem?_eq_getElem h, Option.getD_some]

theorem slice?_middle {bs front mid back : Bytes} {start stop : Nat}
    (h : bs = front ++ mid ++ back) (hstart : start = front.length)
    (hstop : stop = start + mid.length) : slice? bs start stop = some mid := by
  subst h hstart hstop
  rw [slice?_eq_some (Nat.le_add_right _ _) (by simp), slice, Nat.add_sub_cancel_left,
    List.append_assoc, List.drop_left, List.take_left]

theorem slice?_left (bs rest : Bytes) : slice? (bs ++ rest) 0 bs.length = some bs := by
  rw [slice?_zero_eq_some (by simp), List.take_left]

theorem overwrite?_middle (new : Bytes) {bs front mid back : Bytes} {pos : Nat}
    (h : bs = front ++ mid ++ back) (hpos : pos = front.length) (hnew : new.length ≤ mid.length) :
    ∃ behind, overwrite? bs pos new = some (front ++ new ++ behind) ∧
      front.length + new.length + behind.length = bs.length ∧ back.length ≤ behind.length := by
  subst h hpos
  have hl : front.length + new.length ≤ (front ++ mid ++ back).length := by
    simp only [List.length_append]
    omega
  refine ⟨mid.drop new.length ++ back, ?_, ?_, ?_⟩
  · rw [overwrite?_eq_some hl, List.append_assoc, overwrite_append_of_le _ _ _ (Nat.le_refl _),
      Nat.sub_self, overwrite_zero, List.drop_append_of_le_length hnew, List.append_assoc]
  · simp only [List.length_append, List.length_drop]
    omega
  · rw [List.length_append]
    exact Nat.le_add_left _ _

theorem idxOf?_append_cons {a : UInt8} {front : Bytes} (h : a ∉ front) (back : Bytes) :
    (front ++ a :: back).idxOf? a = some front.length := by
  rw [List.idxOf?, List.findIdx?_append, ← List.idxOf?, List.idxOf?_eq_none_iff.2 h]
  simp [List.idxOf?_cons]

end ByteChannel
