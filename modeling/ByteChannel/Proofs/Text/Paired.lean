import ByteChannel.Proofs.Text.Settled

/-!
# Texts where every line feed ends a pair

In such a text no line feed stands alone, so that it is the expanded form of what it collapses to.
Its places between line ends are then those of the collapsed form, each moved on by the line feeds
before it.
-/

namespace ByteChannel.Text

/-- Every line feed comes right after a carriage return. -/
def Paired (bs : Bytes) : Prop :=
  ∀ i < bs.length, bs[i]? = some lf → 0 < i ∧ bs[i - 1]? = some cr

instance (bs : Bytes) : Decidable (Paired bs) := inferInstanceAs (Decidable (∀ i < _, _))

theorem Paired.not_head {b : UInt8} {bs : Bytes} (h : Paired (b :: bs)) : b ≠ lf := by
  rintro rfl
  exact absurd (h 0 (Nat.zero_lt_succ _) rfl).1 (Nat.lt_irrefl 0)

theorem Paired.pair {bs : Bytes} (h : Paired (cr :: lf :: bs)) : Paired bs := by
  intro i hi hlf
  obtain ⟨_, hcr⟩ := h (i + 2) (Nat.add_lt_add_right hi 2) hlf
  cases i with
  | zero => cases hcr
  | succ i => exact ⟨Nat.succ_pos i, hcr⟩

theorem Paired.tail {b : UInt8} {bs : Bytes} (h : Paired (b :: bs))
    (hb : ¬ (b = cr ∧ bs.head? = some lf)) : Paired bs := by
  intro i hi hlf
  obtain ⟨_, hcr⟩ := h (i + 1) (Nat.succ_lt_succ hi) hlf
  cases i with
  | zero =>
    rw [← List.head?_eq_getElem?] at hlf
    exact absurd ⟨Option.some.inj hcr, hlf⟩ hb
  | succ i => exact ⟨Nat.succ_pos i, hcr⟩

/-- The two forms of a paired text determine each other. -/
theorem expand_collapse {bs : Bytes} (h : Paired bs) : expand (collapse bs) = bs := by
  induction hn : bs.length using Nat.strongRecOn generalizing bs with
  | ind n ih =>
    cases bs with
    | nil => rfl
    | cons b bs =>
      subst hn
      by_cases hb : b = cr ∧ bs.head? = some lf
      · obtain ⟨rfl, hlf⟩ := hb
        obtain ⟨more, rfl⟩ := List.head?_eq_some_iff.1 hlf
        have hmore := ih more.length (by simp only [List.length_cons]; omega) h.pair rfl
        rw [collapse_pair, expand, if_pos rfl, hmore]
      · rw [collapse_cons_of_not hb, expand, if_neg h.not_head,
          ih bs.length (Nat.lt_succ_self _) (h.tail hb) rfl]

/-- Where an expanded text is cut between line ends, both parts are expanded. -/
theorem expand_collapse_of_whole {text front back : Bytes} (h : expand text = front ++ back)
    (hw : Whole front back) : expand (collapse front) = front := by
  induction text generalizing front with
  | nil =>
    obtain ⟨rfl, _⟩ := List.nil_eq_append_iff.1 h
    rfl
  | cons b text ih =>
    cases front with
    | nil => rfl
    | cons a front =>
      by_cases hb : b = lf
      · rw [expand, if_pos hb, List.cons_append, List.cons.injEq] at h
        obtain ⟨rfl, h⟩ := h
        cases front with
        | nil =>
          -- the cut would part the pair
          rw [List.nil_append] at h
          exact absurd ⟨rfl, by rw [← h]; rfl⟩ ((whole_iff _ _).1 hw)
        | cons a front =>
          rw [List.cons_append, List.cons.injEq] at h
          obtain ⟨rfl, h⟩ := h
          rw [Whole, List.cons_append, List.cons_append, collapse_pair, collapse_pair,
            List.cons_append, List.cons.injEq] at hw
          rw [collapse_pair, expand, if_pos rfl, ih h hw.2]
      · rw [expand, if_neg hb, List.cons_append, List.cons.injEq] at h
        obtain ⟨rfl, h⟩ := h
        have hhead : (front ++ back).head? ≠ some lf := h ▸ head?_expand_ne text
        have hfront : front.head? ≠ some lf := by
          intro hn
          rw [List.head?_append, hn] at hhead
          exact hhead rfl
        rw [Whole, List.cons_append, collapse_cons_of_not fun hc => hhead hc.2,
          collapse_cons_of_not fun hc => hfront hc.2, List.cons_append, List.cons.injEq] at hw
        rw [collapse_cons_of_not fun hc => hfront hc.2, expand, if_neg hb, ih h hw.2]

end ByteChannel.Text
