import ByteChannel.Mapping.View

/-!
# Private copies of pages

The copies of a private window stand for the bytes that it shows: a page that has a copy is its
copy, any other is the page of the file. What is shown is read off from these bytes, and what is
stored is laid over them.
-/

namespace ByteChannel

theorem getElem?_overwrite (old new : Bytes) {pos : Nat} (h : pos + new.length ≤ old.length)
    (i : Nat) :
    (overwrite old pos new)[i]? =
      if pos ≤ i ∧ i < pos + new.length then new[i - pos]? else old[i]? := by
  rw [getElem?_overwrite_of_any]
  by_cases hi : i < pos
  · rw [if_pos hi, if_pos (by omega), if_neg (by omega)]
  · by_cases hn : i < pos + new.length
    · rw [if_neg hi, if_pos hn, if_pos ⟨Nat.le_of_not_lt hi, hn⟩]
    · rw [if_neg hi, if_neg hn, if_neg fun hb => hn hb.2]

theorem overwrite_singleton (old : Bytes) {pos : Nat} (h : pos < old.length) (b : UInt8) :
    overwrite old pos [b] = old.set pos b := by
  have hfits : pos + [b].length ≤ old.length := h
  apply List.ext_getElem?
  intro i
  rw [getElem?_overwrite _ _ hfits, List.getElem?_set]
  by_cases hi : pos = i
  · subst hi
    rw [if_pos ⟨Nat.le_refl _, Nat.lt_succ_self _⟩, if_pos rfl, if_pos h, Nat.sub_self]
    rfl
  · rw [if_neg hi, if_neg (by simp only [List.length_singleton]; omega)]

theorem head?_slice (bs : Bytes) (start stop : Nat) :
    (slice bs start stop).head? = if start < stop then bs[start]? else none := by
  simp only [List.head?_eq_getElem?, getElem?_slice, Nat.add_zero, Nat.sub_pos_iff_lt]

theorem slice_slice (bs : Bytes) (start : Nat) {size from_ n : Nat} (h : from_ + n ≤ size) :
    slice (slice bs start (start + size)) from_ (from_ + n) =
      slice bs (start + from_) (start + from_ + n) := by
  apply List.ext_getElem?
  intro i
  rw [getElem?_slice, getElem?_slice, getElem?_slice, Nat.add_sub_cancel_left,
    Nat.add_sub_cancel_left, Nat.add_sub_cancel_left, Nat.add_assoc]
  by_cases hi : i < n
  · rw [if_pos hi, if_pos hi, if_pos (by omega)]
  · rw [if_neg hi, if_neg hi]

theorem slice_overwrite_of_le (old new : Bytes) {pos start stop : Nat}
    (h : pos + new.length ≤ old.length) (hstart : start ≤ pos) (hstop : pos + new.length ≤ stop) :
    slice (overwrite old pos new) start stop =
      overwrite (slice old start stop) (pos - start) new := by
  have hfits : pos - start + new.length ≤ (slice old start stop).length := by
    rw [length_slice]
    omega
  apply List.ext_getElem?
  intro i
  have hi : start + i - pos = i - (pos - start) := by omega
  rw [getElem?_slice, getElem?_overwrite _ _ h, getElem?_overwrite _ _ hfits, getElem?_slice, hi]
  by_cases hin : pos ≤ start + i ∧ start + i < pos + new.length
  · rw [if_pos hin, if_pos (by omega), if_pos (by omega)]
  · rw [if_neg hin, if_neg (by omega : ¬ (pos - start ≤ i ∧ i < pos - start + new.length))]

theorem slice_overwrite_of_apart (old new : Bytes) {pos start stop : Nat}
    (h : pos + new.length ≤ old.length) (hapart : stop ≤ pos ∨ pos + new.length ≤ start) :
    slice (overwrite old pos new) start stop = slice old start stop := by
  apply List.ext_getElem?
  intro i
  rw [getElem?_slice, getElem?_slice, getElem?_overwrite _ _ h]
  by_cases hi : i < stop - start
  · rw [if_pos hi, if_pos hi, if_neg (by omega)]
  · rw [if_neg hi, if_neg hi]

namespace View

variable [Paging]

def page (bs : Bytes) (p : Nat) : Bytes := slice bs (p * pageSize) (p * pageSize + pageSize)

theorem pageStart_add_mod (pos : Nat) : pageOf pos * pageSize + pos % pageSize = pos := by
  rw [pageOf, Nat.mul_comm]
  exact Nat.div_add_mod pos pageSize

theorem slice_page (bs : Bytes) {pos stop : Nat} (hpos : pos ≤ stop) (hstop : stop ≤ nextPage pos) :
    slice (page bs (pageOf pos)) (pos % pageSize) (pos % pageSize + (stop - pos)) =
      slice bs pos stop := by
  have hmod := pageStart_add_mod pos
  have hnext : nextPage pos = pageOf pos * pageSize + pageSize := rfl
  rw [page, slice_slice _ _ (by omega), hmod, Nat.add_sub_cancel' hpos]

/-- Bytes are known by their pages. -/
theorem eq_of_page_eq {as bs : Bytes} (h : ∀ p, page as p = page bs p) : as = bs := by
  apply List.ext_getElem?
  intro i
  have hmod : i % pageSize < pageSize := Nat.mod_lt _ pageSize_pos
  have hi := congrArg (·[i % pageSize]?) (h (pageOf i))
  simp only [page, getElem?_slice, Nat.add_sub_cancel_left, if_pos hmod, pageStart_add_mod] at hi
  exact hi

variable {file : Store} {copies : List (Nat × Bytes)} {bs : Bytes}

/-- The bytes that a window over `file` with these copies shows are `bs`. -/
structure Copied (file : Store) (copies : List (Nat × Bytes)) (bs : Bytes) : Prop where
  length_eq : bs.length = file.bytes.length
  page_eq : ∀ p, page bs p = (copies.lookup p).getD (page file.bytes p)

theorem copied_nil (file : Store) : Copied file [] file.bytes := ⟨rfl, fun _ => rfl⟩

theorem Copied.eq_of_nil (h : Copied file [] bs) : bs = file.bytes := eq_of_page_eq h.page_eq

theorem Copied.shown_eq (h : Copied file copies bs) (start stop : Nat) :
    shown file copies start stop = slice bs start stop := by
  fun_induction shown file copies start stop with
  | case1 start hc =>
    subst hc
    rw [h.eq_of_nil, Store.slice_eq]
  | case2 start hc hs => exact (slice_of_stop_le_start bs hs).symm
  | case3 start hc hs upTo here ih =>
    have hlt := lt_nextPage start
    have hu : upTo = min stop (nextPage start) := rfl
    have hhere : here = slice bs start upTo := by
      have hpage := h.page_eq (pageOf start)
      rw [← slice_page bs (by omega) (by omega), hpage]
      simp only [here]
      cases copies.lookup (pageOf start) with
      | some page => rfl
      | none =>
        rw [Option.getD_none, slice_page _ (by omega) (by omega), Store.slice_eq]
    rw [hhere, ih]
    by_cases hnext : nextPage start ≤ stop
    · rw [hu, Nat.min_eq_right hnext, slice_append_slice _ (Nat.le_of_lt hlt) hnext]
    · rw [hu, Nat.min_eq_left (by omega),
        slice_of_stop_le_start bs (by omega : stop ≤ nextPage start), List.append_nil]

/-- Bytes of one page go into its copy. -/
theorem Copied.put (h : Copied file copies bs) {pos : Nat} {new : Bytes}
    (hfits : pos + new.length ≤ bs.length) (hpage : pos + new.length ≤ nextPage pos) :
    Copied file (Keyed.put (pageOf pos) (overwrite (page bs (pageOf pos)) (pos % pageSize) new)
      copies) (overwrite bs pos new) := by
  have hmod := pageStart_add_mod pos
  rw [nextPage] at hpage
  constructor
  · rw [length_overwrite, Nat.max_eq_left hfits, h.length_eq]
  · intro p
    by_cases hp : p = pageOf pos
    · have hoffset : pos - pageOf pos * pageSize = pos % pageSize := by omega
      rw [hp, Keyed.lookup_put_self, Option.getD_some, page, page,
        slice_overwrite_of_le _ _ hfits (by omega) hpage, hoffset]
    · rw [Keyed.lookup_put_of_ne _ hp, ← h.page_eq p, page, page]
      apply slice_overwrite_of_apart _ _ hfits
      rcases Nat.lt_or_gt_of_ne hp with hlt | hgt
      · have := Nat.mul_le_mul_right pageSize (Nat.succ_le_of_lt hlt)
        rw [Nat.succ_mul] at this
        omega
      · have := Nat.mul_le_mul_right pageSize (Nat.succ_le_of_lt hgt)
        rw [Nat.succ_mul] at this
        omega

theorem copyBytes_nil (file : Store) (copies : List (Nat × Bytes)) (pos : Nat) :
    View.copyBytes file copies pos [] = copies := by
  rw [View.copyBytes, if_pos rfl]

theorem Copied.copyBytes (h : Copied file copies bs) {pos : Nat} {new : Bytes}
    (hfits : pos + new.length ≤ bs.length) :
    Copied file (copyBytes file copies pos new) (overwrite bs pos new) := by
  fun_induction View.copyBytes file copies pos new generalizing bs with
  | case1 copies pos =>
    rw [overwrite_nil_new _ (Nat.le_trans (Nat.le_add_right _ _) hfits)]
    exact h
  | case2 copies pos new hnew room old page =>
    rename_i ih
    have hlt := lt_nextPage pos
    have hroom : room = nextPage pos - pos := rfl
    have hold : old = View.page bs (pageOf pos) := by
      rw [h.page_eq, View.page, ← Store.slice_eq]
      rfl
    have htake : (new.take room).length ≤ room ∧ (new.take room).length ≤ new.length :=
      ⟨List.length_take_le _ _, List.length_take_le' _ _⟩
    have hput : Copied file (Keyed.put (pageOf pos) page copies)
        (overwrite bs pos (new.take room)) := by
      have hfits' : pos + (new.take room).length ≤ bs.length := by omega
      have hput := h.put hfits' (by omega)
      rwa [← hold] at hput
    by_cases hdrop : new.drop room = []
    · have hall : new.take room = new := by
        have := List.take_append_drop room new
        rwa [hdrop, List.append_nil] at this
      rw [hdrop, copyBytes_nil]
      rwa [hall] at hput
    · have hlen : (new.take room).length = room := by
        have := mt List.drop_eq_nil_of_le hdrop
        rw [List.length_take]
        omega
      have hmore := ih hput (by
        rw [length_overwrite, List.length_drop]
        omega)
      have hover := overwrite_append bs pos (new.take room) (new.drop room)
      rw [hlen, List.take_append_drop] at hover
      rwa [hover] at hmore

theorem pageOf_add {p j : Nat} (hj : j < pageSize) : pageOf (p * pageSize + j) = p := by
  have hpos := pageSize_pos
  rw [pageOf, Nat.mul_comm, Nat.mul_add_div hpos, Nat.div_eq_of_lt hj, Nat.add_zero]

/-- The same copies stand over any other file of this length. -/
theorem Copied.over (h : Copied file copies bs) {other : Store}
    (hlen : other.bytes.length = file.bytes.length) : ∃ bs', Copied other copies bs' := by
  let here (k : Nat) : UInt8 :=
    if (copies.lookup (pageOf k)).isSome then bs.getD k 0 else other.bytes.getD k 0
  have hhere (k : Nat) : ((List.range bs.length).map here)[k]? =
      if (copies.lookup (pageOf k)).isSome then bs[k]? else other.bytes[k]? := by
    have hbs := h.length_eq
    rw [List.getElem?_map]
    by_cases hk : k < bs.length
    · have hk' : k < other.bytes.length := by omega
      rw [List.getElem?_range hk, Option.map_some]
      simp only [here, List.getD_eq_getElem?_getD, List.getElem?_eq_getElem hk,
        List.getElem?_eq_getElem hk', Option.getD_some]
      split <;> rfl
    · rw [List.getElem?_eq_none (by rw [List.length_range]; omega),
        List.getElem?_eq_none (by omega), List.getElem?_eq_none (by omega), ite_self]
      rfl
  refine ⟨(List.range bs.length).map here, ?_, fun p => ?_⟩
  · rw [List.length_map, List.length_range, h.length_eq, hlen]
  · have hpage := h.page_eq p
    apply List.ext_getElem?
    intro j
    rw [page, getElem?_slice, Nat.add_sub_cancel_left]
    by_cases hj : j < pageSize
    · rw [if_pos hj, hhere, pageOf_add hj]
      cases hc : copies.lookup p with
      | none =>
        rw [Option.getD_none, page, getElem?_slice, Nat.add_sub_cancel_left, if_pos hj]
        rfl
      | some copy =>
        rw [hc, Option.getD_some, page] at hpage
        rw [Option.getD_some, ← hpage, getElem?_slice, Nat.add_sub_cancel_left, if_pos hj]
        rfl
    · have hout : ((copies.lookup p).getD (page other.bytes p)).length ≤ j := by
        cases hc : copies.lookup p with
        | none =>
          rw [Option.getD_none, page, length_slice]
          omega
        | some copy =>
          rw [hc, Option.getD_some, page] at hpage
          rw [Option.getD_some, ← hpage, length_slice]
          omega
      rw [if_neg hj, List.getElem?_eq_none hout]

end View

end ByteChannel
