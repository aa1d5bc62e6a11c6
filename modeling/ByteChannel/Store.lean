import ByteChannel.Bytes

/-!
# Stored bytes

What a file or a device holds is long and is reached at any place. It is kept in blocks, so
that a place is found by counting blocks and a change rebuilds few of them. All blocks but the
last are full: a store is determined by its bytes, and every operation is the one on lists.
-/

namespace ByteChannel

def blockSize : Nat := 256

/-- Cuts bytes into full blocks and a last one. -/
def cutBlocks (bs : Bytes) : List (Array UInt8) :=
  if _h : bs = [] then [] else (bs.take blockSize).toArray :: cutBlocks (bs.drop blockSize)
termination_by bs.length
decreasing_by
  have := List.length_pos_iff.2 _h
  simp only [List.length_drop, blockSize]
  omega

def joinBlocks (blocks : List (Array UInt8)) : Bytes := blocks.flatMap Array.toList

/-- Up to `n` bytes from position `start` on. -/
def sliceBlocks : List (Array UInt8) → Nat → Nat → Bytes
  | [], _, _ => []
  | b :: blocks, start, n =>
    if n = 0 then []
    else if b.size ≤ start then sliceBlocks blocks (start - b.size) n
    else (b.extract start (start + n)).toList ++ sliceBlocks blocks 0 (n - (b.size - start))

/-- Lays bytes over the blocks from position `pos` on. The last block takes what lies beyond, and is
cut again. -/
def overwriteBlocks : List (Array UInt8) → Nat → Bytes → List (Array UInt8)
  | [], pos, new => cutBlocks (overwrite [] pos new)
  | [b], pos, new => cutBlocks (overwrite b.toList pos new)
  | b :: next :: blocks, pos, new =>
    if b.size ≤ pos then b :: overwriteBlocks (next :: blocks) (pos - b.size) new
    else
      let inside := new.take (b.size - pos)
      let beyond := new.drop (b.size - pos)
      (overwrite b.toList pos inside).toArray ::
        if beyond = [] then next :: blocks else overwriteBlocks (next :: blocks) 0 beyond

theorem joinBlocks_cons (b : Array UInt8) (blocks : List (Array UInt8)) :
    joinBlocks (b :: blocks) = b.toList ++ joinBlocks blocks := rfl

theorem joinBlocks_cutBlocks (bs : Bytes) : joinBlocks (cutBlocks bs) = bs := by
  fun_induction cutBlocks bs with
  | case1 => rfl
  | case2 bs h ih => rw [joinBlocks_cons, ih, List.take_append_drop]

theorem sliceBlocks_eq (blocks : List (Array UInt8)) (start n : Nat) :
    sliceBlocks blocks start n = ((joinBlocks blocks).drop start).take n := by
  fun_induction sliceBlocks blocks start n with
  | case1 => simp [joinBlocks]
  | case2 => simp
  | case3 b blocks start n hn hs ih =>
    have hd : b.toList.drop start = [] := List.drop_eq_nil_of_le hs
    rw [ih, joinBlocks_cons, List.drop_append, hd, Array.length_toList, List.nil_append]
  | case4 b blocks start n hn hs ih =>
    have hz : start - b.toList.length = 0 := Nat.sub_eq_zero_of_le (Nat.le_of_not_le hs)
    rw [ih, joinBlocks_cons, List.drop_append, List.take_append, hz, List.length_drop]
    simp

/-- A full block in front of others stays as it is. -/
theorem cutBlocks_append {front : Bytes} (back : Bytes) (h : front.length = blockSize) :
    cutBlocks (front ++ back) = front.toArray :: cutBlocks back := by
  have hn : front ++ back ≠ [] := by
    intro he
    simp only [List.append_eq_nil_iff] at he
    simp [he.1, blockSize] at h
  rw [cutBlocks, dif_neg hn, List.take_left' h, List.drop_left' h]

theorem cutBlocks_cons_cons {b next : Array UInt8} {blocks : List (Array UInt8)}
    (h : b :: next :: blocks = cutBlocks (joinBlocks (b :: next :: blocks))) :
    b.size = blockSize ∧ next :: blocks = cutBlocks (joinBlocks (next :: blocks)) := by
  generalize hj : joinBlocks (b :: next :: blocks) = bs at h
  rw [cutBlocks] at h
  split at h
  · cases h
  · injection h with hb hr
    have hd : joinBlocks (next :: blocks) = bs.drop blockSize := by
      rw [hr, joinBlocks_cutBlocks]
    refine ⟨?_, by rw [hd, ← hr]⟩
    by_cases hl : bs.length ≤ blockSize
    · rw [List.drop_eq_nil_of_le hl, cutBlocks, dif_pos rfl] at hr
      cases hr
    · rw [hb]
      simp only [List.size_toArray, List.length_take]
      omega

theorem overwriteBlocks_eq {blocks : List (Array UInt8)} (pos : Nat) (new : Bytes)
    (h : blocks = cutBlocks (joinBlocks blocks)) :
    overwriteBlocks blocks pos new = cutBlocks (overwrite (joinBlocks blocks) pos new) := by
  fun_induction overwriteBlocks blocks pos new with
  | case1 => rfl
  | case2 pos new b => simp [joinBlocks]
  | case3 b next blocks pos new hs ih =>
    obtain ⟨hb, hr⟩ := cutBlocks_cons_cons h
    rw [ih hr, joinBlocks_cons b, overwrite_append_of_le _ _ _ hs,
      cutBlocks_append _ hb]
    simp
  | case4 b next blocks pos new hs inside beyond ih =>
    obtain ⟨hb, hr⟩ := cutBlocks_cons_cons h
    have hs' : pos < b.toList.length := Nat.lt_of_not_le hs
    have hl : (overwrite b.toList pos inside).length = blockSize := by
      rw [length_overwrite, ← hb]
      simp only [Array.length_toList, inside, List.length_take]
      omega
    rw [joinBlocks_cons b, overwrite_append_of_lt _ _ _ hs', Array.length_toList,
      cutBlocks_append _ hl, show new.drop (b.size - pos) = beyond from rfl]
    split
    · next he => rw [he, overwrite_nil_new _ (Nat.zero_le _), ← hr]
    · next he => rw [ih hr]

theorem length_joinBlocks (blocks : List (Array UInt8)) :
    (joinBlocks blocks).length = blocks.foldr (fun b n => b.size + n) 0 := by
  induction blocks with
  | nil => rfl
  | cons b blocks ih => rw [joinBlocks_cons, List.length_append, ih]; rfl

structure Store where
  blocks : List (Array UInt8)
  blocks_eq : blocks = cutBlocks (joinBlocks blocks)
  deriving DecidableEq

namespace Store

def bytes (s : Store) : Bytes := joinBlocks s.blocks

def ofBytes (bs : Bytes) : Store := ⟨cutBlocks bs, by rw [joinBlocks_cutBlocks]⟩

def empty : Store := ofBytes []

def length (s : Store) : Nat := s.blocks.foldr (fun b n => b.size + n) 0

/-- The bytes at positions `start ≤ i < stop`, as far as they exist. -/
def slice (s : Store) (start stop : Nat) : Bytes := sliceBlocks s.blocks start (stop - start)

/-- Lays `new` over the bytes from position `pos` on. -/
def overwrite (s : Store) (pos : Nat) (new : Bytes) : Store :=
  ⟨overwriteBlocks s.blocks pos new, by
    rw [overwriteBlocks_eq pos new s.blocks_eq, joinBlocks_cutBlocks]⟩

instance : Inhabited Store := ⟨empty⟩

instance : Repr Store := ⟨fun s n => reprPrec s.bytes n⟩

@[simp]
theorem bytes_ofBytes (bs : Bytes) : (ofBytes bs).bytes = bs := joinBlocks_cutBlocks bs

@[simp]
theorem length_bytes (s : Store) : s.bytes.length = s.length := length_joinBlocks s.blocks

@[simp]
theorem slice_eq (s : Store) (start stop : Nat) :
    s.slice start stop = ByteChannel.slice s.bytes start stop :=
  sliceBlocks_eq s.blocks start (stop - start)

@[simp]
theorem bytes_overwrite (s : Store) (pos : Nat) (new : Bytes) :
    (s.overwrite pos new).bytes = ByteChannel.overwrite s.bytes pos new := by
  have h := congrArg joinBlocks (overwriteBlocks_eq pos new s.blocks_eq)
  rw [joinBlocks_cutBlocks] at h
  exact h

end Store

end ByteChannel
