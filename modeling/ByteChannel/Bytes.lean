/-!
# Runs of bytes

Everything a channel moves is a list of bytes. This module holds the two list
operations that channels, buffers and files share: taking a range out and laying
bytes over a place. Laying bytes past the end grows the list, and a gap reads as zeros.
-/

namespace ByteChannel

abbrev Bytes := List UInt8

/-- The bytes at positions `start ≤ i < stop`, as far as they exist. -/
def slice (bs : Bytes) (start stop : Nat) : Bytes :=
  (bs.drop start).take (stop - start)

/-- Lays `new` over `old` from position `pos` on. -/
def overwrite (old : Bytes) (pos : Nat) (new : Bytes) : Bytes :=
  old.take pos ++ List.replicate (pos - old.length) 0 ++ new ++ old.drop (pos + new.length)

theorem length_slice (bs : Bytes) (start stop : Nat) :
    (slice bs start stop).length = min (stop - start) (bs.length - start) := by
  simp [slice]

theorem slice_of_stop_le_start (bs : Bytes) {start stop : Nat} (h : stop ≤ start) :
    slice bs start stop = [] := by
  simp [slice, Nat.sub_eq_zero_of_le h]

theorem getElem?_slice (bs : Bytes) (start stop i : Nat) :
    (slice bs start stop)[i]? = if i < stop - start then bs[start + i]? else none := by
  simp [slice, List.getElem?_take, List.getElem?_drop]

theorem slice_append_slice (bs : Bytes) {start mid stop : Nat} (hs : start ≤ mid)
    (hm : mid ≤ stop) : slice bs start mid ++ slice bs mid stop = slice bs start stop := by
  have hsum : stop - start = (mid - start) + (stop - mid) := by omega
  have hmid : start + (mid - start) = mid := by omega
  rw [slice, slice, slice, hsum, List.take_add, List.drop_drop, hmid]

theorem overwrite_zero (old new : Bytes) : overwrite old 0 new = new ++ old.drop new.length := by
  simp [overwrite]

theorem length_overwrite (old : Bytes) (pos : Nat) (new : Bytes) :
    (overwrite old pos new).length = max old.length (pos + new.length) := by
  simp [overwrite]
  omega

/-- A byte of what was laid over, wherever that is: a gap in front of it reads as zeros. -/
theorem getElem?_overwrite_of_any (old : Bytes) (pos : Nat) (new : Bytes) (i : Nat) :
    (overwrite old pos new)[i]? =
      if i < pos then if i < old.length then old[i]? else some 0
      else if i < pos + new.length then new[i - pos]? else old[i]? := by
  have hfront : (old.take pos ++ List.replicate (pos - old.length) 0).length = pos := by
    simp only [List.length_append, List.length_take, List.length_replicate]
    omega
  rw [overwrite, List.append_assoc _ new, List.getElem?_append, hfront]
  by_cases hp : i < pos
  · rw [if_pos hp, if_pos hp, List.getElem?_append, List.length_take]
    by_cases ho : i < old.length
    · rw [if_pos (by omega), if_pos ho, List.getElem?_take_of_lt hp]
    · rw [if_neg (by omega), if_neg ho, List.getElem?_replicate, if_pos (by omega)]
  · rw [if_neg hp, if_neg hp, List.getElem?_append]
    by_cases hn : i < pos + new.length
    · rw [if_pos (by omega), if_pos hn]
    · have hindex : pos + new.length + (i - pos - new.length) = i := by omega
      rw [if_neg (by omega), if_neg hn, List.getElem?_drop, hindex]

theorem overwrite_nil_new (old : Bytes) {pos : Nat} (h : pos ≤ old.length) :
    overwrite old pos [] = old := by
  simp [overwrite, Nat.sub_eq_zero_of_le h]

/-- Inside the old bytes, laying over is cutting out and putting in. -/
theorem overwrite_eq_take_append_drop (old : Bytes) {pos : Nat} (new : Bytes)
    (h : pos ≤ old.length) :
    overwrite old pos new = old.take pos ++ new ++ old.drop (pos + new.length) := by
  simp [overwrite, Nat.sub_eq_zero_of_le h]

theorem drop_overwrite (old : Bytes) (pos : Nat) (new : Bytes) :
    (overwrite old pos new).drop (pos + new.length) = old.drop (pos + new.length) := by
  have h : (old.take pos ++ List.replicate (pos - old.length) 0 ++ new).length =
      pos + new.length := by
    simp only [List.length_append, List.length_take, List.length_replicate]
    omega
  rw [overwrite, List.drop_left' h]

/-- Up to where the new bytes end. -/
theorem take_overwrite_add (old : Bytes) (pos : Nat) (new : Bytes) :
    (overwrite old pos new).take (pos + new.length) =
      old.take pos ++ List.replicate (pos - old.length) 0 ++ new := by
  have h : (old.take pos ++ List.replicate (pos - old.length) 0 ++ new).length =
      pos + new.length := by
    simp only [List.length_append, List.length_take, List.length_replicate]
    omega
  rw [overwrite, List.take_left' h]

theorem overwrite_append (old : Bytes) (pos : Nat) (first second : Bytes) :
    overwrite (overwrite old pos first) (pos + first.length) second =
      overwrite old pos (first ++ second) := by
  have hd : (overwrite old pos first).drop (pos + first.length + second.length) =
      old.drop (pos + first.length + second.length) := by
    rw [← List.drop_drop, drop_overwrite, List.drop_drop]
  have hl : pos + first.length - (overwrite old pos first).length = 0 := by
    rw [length_overwrite]
    omega
  rw [overwrite, take_overwrite_add, hd, hl]
  simp [overwrite, Nat.add_assoc]

theorem overwrite_append_of_le (front back : Bytes) {pos : Nat} (new : Bytes)
    (h : front.length ≤ pos) :
    overwrite (front ++ back) pos new = front ++ overwrite back (pos - front.length) new := by
  have hs : pos + new.length - front.length = pos - front.length + new.length := by omega
  have hp : pos - (front.length + back.length) = pos - front.length - back.length := by omega
  have hn : front.length ≤ pos + new.length := by omega
  simp [overwrite, List.take_append, List.drop_append, List.take_of_length_le h,
    List.drop_eq_nil_of_le hn, hs, hp]

/-- New bytes that end in front do not reach what lies behind. -/
theorem overwrite_append_of_fits (front back : Bytes) {pos : Nat} (new : Bytes)
    (h : pos + new.length ≤ front.length) :
    overwrite (front ++ back) pos new = overwrite front pos new ++ back := by
  have hp : pos ≤ front.length := Nat.le_trans (Nat.le_add_right _ _) h
  have hpb : pos ≤ (front ++ back).length := by
    rw [List.length_append]
    omega
  rw [overwrite_eq_take_append_drop _ _ hpb, overwrite_eq_take_append_drop _ _ hp,
    List.take_append_of_le_length hp, List.drop_append_of_le_length h, List.append_assoc _ _ back]

theorem overwrite_append_of_lt (front back : Bytes) {pos : Nat} (new : Bytes)
    (h : pos < front.length) :
    overwrite (front ++ back) pos new =
      overwrite front pos (new.take (front.length - pos)) ++
        overwrite back 0 (new.drop (front.length - pos)) := by
  have hp : pos ≤ front.length := Nat.le_of_lt h
  have hpb : pos ≤ (front ++ back).length := by
    simp only [List.length_append]
    omega
  rw [overwrite_eq_take_append_drop _ _ hpb, overwrite_eq_take_append_drop _ _ hp, overwrite_zero,
    List.take_append_of_le_length hp, List.drop_append]
  by_cases hn : new.length ≤ front.length - pos
  · have hz : pos + new.length - front.length = 0 := by omega
    simp [List.take_of_length_le hn, List.drop_eq_nil_of_le hn, hz]
  · have ht : (new.take (front.length - pos)).length = front.length - pos := by
      simp only [List.length_take]
      omega
    have hd : pos + (front.length - pos) = front.length := by omega
    have hb : pos + new.length - front.length = new.length - (front.length - pos) := by omega
    have hf : front.length ≤ pos + new.length := by omega
    rw [ht, hd, List.drop_eq_nil_of_le hf, hb, List.length_drop, List.drop_length]
    simp only [List.append_nil, List.nil_append, List.append_assoc]
    rw [← List.append_assoc (new.take (front.length - pos)), List.take_append_drop]

end ByteChannel
