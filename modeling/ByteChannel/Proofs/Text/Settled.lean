import ByteChannel.Proofs.Device.Reliable
import ByteChannel.Text.Collapsed

/-!
# Collapsed reads are cut between line ends

A collapsed read delivers what a stretch of the device's file collapses to, and leaves the device at
the end of that stretch. The stretch never ends inside a line end, so what comes after it collapses
as if it stood alone. Less than was asked for comes only where the file ends, or where the stretch
ends with a line end of two bytes, of which the second place stays free.
-/

namespace ByteChannel.Text

/-! ## Collapsing in pieces -/

@[simp] theorem collapse_nil : collapse [] = [] := rfl

@[simp] theorem collapse_singleton (b : UInt8) : collapse [b] = [b] := by simp [collapse]

theorem collapse_pair (bs : Bytes) : collapse (cr :: lf :: bs) = lf :: collapse bs := by
  have hne : ¬ (lf = cr ∧ bs.head? = some lf) := fun h => absurd h.1 (by decide)
  rw [collapse, if_pos ⟨rfl, rfl⟩, collapse, if_neg hne]

theorem collapse_cons_of_not {b : UInt8} {bs : Bytes} (h : ¬ (b = cr ∧ bs.head? = some lf)) :
    collapse (b :: bs) = b :: collapse bs := if_neg h

theorem collapse_eq_nil_iff (bs : Bytes) : collapse bs = [] ↔ bs = [] := by
  induction bs with
  | nil => simp
  | cons b bs ih =>
    by_cases h : b = cr ∧ bs.head? = some lf
    · have hne : bs ≠ [] := by
        rintro rfl
        simp at h
      rw [collapse, if_pos h, ih]
      simp [hne]
    · simp [collapse_cons_of_not h]

/-- The two forms of a text determine each other from the expanded side. -/
theorem collapse_expand (bs : Bytes) : collapse (expand bs) = bs := by
  induction bs with
  | nil => rfl
  | cons b bs ih =>
    by_cases h : b = lf
    · rw [expand, if_pos h, collapse_pair, ih, h]
    · rw [expand, if_neg h, collapse_cons_of_not fun hc => head?_expand_ne bs hc.2, ih]

/-- No line end is parted between `front` and `back`. -/
def Whole (front back : Bytes) : Prop := collapse (front ++ back) = collapse front ++ collapse back

theorem whole_nil (back : Bytes) : Whole [] back := rfl

theorem whole_singleton {b : UInt8} {back : Bytes} (h : ¬ (b = cr ∧ back.head? = some lf)) :
    Whole [b] back := by
  rw [Whole, List.singleton_append, collapse_cons_of_not h, collapse_singleton]
  rfl

theorem whole_nil_right (front : Bytes) : Whole front [] := by simp [Whole]

theorem Whole.pair {front back : Bytes} (h : Whole front back) :
    Whole (cr :: lf :: front) back := by
  rw [Whole, List.cons_append, List.cons_append, collapse_pair, collapse_pair, h]
  rfl

theorem Whole.cons {b a : UInt8} {front back : Bytes} (h : Whole (a :: front) back)
    (hba : ¬ (b = cr ∧ a = lf)) : Whole (b :: a :: front) back := by
  have hh (more : Bytes) : ¬ (b = cr ∧ (a :: more).head? = some lf) := by simpa using hba
  rw [Whole, List.cons_append, List.cons_append, collapse_cons_of_not (hh _),
    collapse_cons_of_not (hh _), ← List.cons_append, h]
  rfl

/-- Only a line end can be parted. -/
theorem whole_iff (front back : Bytes) :
    Whole front back ↔ ¬ (front.getLast? = some cr ∧ back.head? = some lf) := by
  fun_induction collapse front with
  | case1 => simp [whole_nil]
  | case2 b bs h ih =>
    obtain ⟨rfl, hbs⟩ := h
    cases bs with
    | nil => cases hbs
    | cons a more =>
      have ha : a = lf := by simpa using hbs
      subst ha
      rw [List.getLast?_cons_cons, ← ih]
      have hp (more : Bytes) : collapse (cr :: lf :: more) = collapse (lf :: more) := by
        rw [collapse, if_pos ⟨rfl, rfl⟩]
      rw [Whole, Whole, List.cons_append, List.cons_append, hp, hp]
  | case3 b bs h ih =>
    cases bs with
    | nil =>
      rw [List.getLast?_singleton, Option.some.injEq, Whole, List.singleton_append,
        collapse_singleton]
      by_cases hb : b = cr ∧ back.head? = some lf
      · rw [collapse, if_pos hb]
        exact iff_of_false (fun he => by simpa using congrArg List.length he) (fun hn => hn hb)
      · rw [collapse_cons_of_not hb]
        exact iff_of_true rfl hb
    | cons a more =>
      have ha : ¬ (b = cr ∧ (a :: (more ++ back)).head? = some lf) := by simpa using h
      rw [List.getLast?_cons_cons, ← ih, Whole, Whole, List.cons_append, List.cons_append,
        collapse_cons_of_not ha, collapse_cons_of_not h, List.cons_append, List.cons.injEq]
      exact and_iff_right rfl

theorem Whole.of_append {front mid back : Bytes} (h : Whole front (mid ++ back)) :
    Whole front mid := by
  cases mid with
  | nil => exact whole_nil_right front
  | cons a more =>
    rw [whole_iff] at h ⊢
    exact h

/-! ## Reading -/

open Reliable

variable {σ : Type} [Device σ] [Reliable σ] {s : σ} {f : File}

/-- The last line end has two bytes, and nothing comes after it. -/
def EndsPaired (bs : Bytes) : Prop := bs = [] ∨ [cr, lf] <:+ bs

theorem EndsPaired.pair {bs : Bytes} (h : EndsPaired bs) : EndsPaired (cr :: lf :: bs) := by
  rcases h with rfl | h
  · exact .inr (List.suffix_refl _)
  · exact .inr (h.trans ((List.suffix_cons lf bs).trans (List.suffix_cons cr _)))

theorem EndsPaired.cons {a : UInt8} {bs : Bytes} (h : EndsPaired (a :: bs)) (b : UInt8) :
    EndsPaired (b :: a :: bs) := by
  rcases h with h | h
  · cases h
  · exact .inr (h.trans (List.suffix_cons b _))

/-- An intake that collapses `front` together with the next stretch of the file, which it ends
between line ends. It takes all of the room left behind `front` unless the file ends, or a line end
of two bytes comes last. -/
def Settled (r : Intake × σ) (front : Bytes) (room : Nat) (f : File) : Prop :=
  ∃ k ≤ f.rest.length, r.1 = ⟨collapse (front ++ f.rest.take k), none⟩ ∧
    Whole (front ++ f.rest.take k) (f.rest.drop k) ∧ Shows r.2 (f.advance k) ∧
    (r.1.bytes.length = front.length + room ∨ f.rest.drop k = [] ∨
      EndsPaired (front ++ f.rest.take k))

/-- Nothing more is taken from the file. -/
theorem settled_here {front bs : Bytes} {room : Nat} (hs : Shows s f) (hb : collapse front = bs)
    (hw : Whole front f.rest) (hfull : bs.length = front.length + room ∨ f.rest = [] ∨
      EndsPaired front) : Settled (⟨bs, none⟩, s) front room f :=
  ⟨0, Nat.zero_le _, by simp [hb], by simpa using hw, hs, by simpa using hfull⟩

theorem settled_at_end {b : UInt8} (hs : Shows s f) (hf : f.rest = []) (room : Nat) :
    Settled (⟨[b], none⟩, s) [b] room f := by
  refine settled_here hs (collapse_singleton b) ?_ (.inr (.inl hf))
  rw [hf]
  exact whole_nil_right _

theorem Settled.pair {r : Intake × σ} {front : Bytes} {room : Nat}
    (h : Settled r front (room + 1) f) : Settled (keep lf r) (cr :: lf :: front) room f := by
  obtain ⟨k, hk, hr, hw, hs, hfull⟩ := h
  refine ⟨k, hk, ?_, hw.pair, hs, hfull.imp (fun hl => ?_) (.imp_right EndsPaired.pair)⟩
  · rw [keep, hr, List.cons_append, List.cons_append, collapse_pair]
  · simp only [keep, List.length_cons, hl]
    omega

theorem Settled.cons {r : Intake × σ} {b a : UInt8} {front : Bytes} {room : Nat}
    (h : Settled r (a :: front) room f) (hba : ¬ (b = cr ∧ a = lf)) :
    Settled (keep b r) (b :: a :: front) room f := by
  obtain ⟨k, hk, hr, hw, hs, hfull⟩ := h
  have hh (more : Bytes) : ¬ (b = cr ∧ (a :: more).head? = some lf) := by simpa using hba
  refine ⟨k, hk, ?_, hw.cons hba, hs, hfull.imp (fun hl => ?_) (.imp_right (·.cons b))⟩
  · simp only [keep, hr, List.cons_append]
    rw [collapse_cons_of_not (hh _)]
  · simp only [keep, List.length_cons] at hl ⊢
    omega

/-- What was read from the file counts to its stretch. -/
theorem settled_of_advance {r : Intake × σ} {front : Bytes} {n : Nat}
    (h : Settled r (front ++ f.rest.take n) 0 (f.advance (f.rest.take n).length)) :
    Settled r front n f := by
  obtain ⟨k, hk, hr, hw, hs, hfull⟩ := h
  rw [File.rest_advance] at hk hr hw hfull
  have ht : f.rest.take n ++ (f.rest.drop (f.rest.take n).length).take k =
      f.rest.take ((f.rest.take n).length + k) := by
    rw [List.take_add, List.length_take, ← List.take_eq_take_min]
  rw [List.append_assoc, ht] at hr hw hfull
  rw [List.drop_drop] at hw hfull
  rw [List.length_drop] at hk
  rw [File.advance_advance] at hs
  refine ⟨(f.rest.take n).length + k, ?_, hr, hw, hs, ?_⟩
  · have : (f.rest.take n).length ≤ f.rest.length := List.length_take_le' n f.rest
    omega
  · refine hfull.elim (fun hl => ?_) .inr
    by_cases hn : (f.rest.take n).length = n
    · rw [List.length_append, hn] at hl
      exact .inl hl
    · have hrest := f.rest_advance_take hn
      rw [File.rest_advance] at hrest
      exact .inr (.inl (by rw [← List.drop_drop, hrest, List.drop_nil]))

/-- What a whole read gives a scanner to go on with. -/
theorem readFully_facts (hs : Shows s f) (n : Nat) :
    (readFully s n).1 = ⟨f.rest.take n, none⟩ ∧
      Shows (readFully s n).2 (f.advance (f.rest.take n).length) ∧
      (((readFully s n).1.error.isSome || (readFully s n).1.bytes.length != n) = true →
        (f.advance (f.rest.take n).length).rest = []) := by
  obtain ⟨s₁, hr, hs₁⟩ := readFully_shows hs n
  rw [hr]
  refine ⟨rfl, hs₁, ?_⟩
  intro ht
  exact f.rest_advance_take (by simpa using ht)

/-- A carriage return in the last place becomes a line end or stays, as the file goes on. -/
theorem settled_settleReturn (hs : Shows s f) (hlen : f.bytes.length ≤ top σ) :
    Settled (⟨[(settleReturn s).1], none⟩, (settleReturn s).2) [cr] 0 f := by
  obtain ⟨s₁, hr, hs₁⟩ := readFully_shows hs 1
  cases hrest : f.rest with
  | nil =>
    rw [hrest] at hr hs₁
    have hd : settleReturn s = (cr, s₁) := by simp [settleReturn, hr]
    rw [hd]
    exact settled_at_end hs₁ hrest 0
  | cons a more =>
    rw [hrest] at hr hs₁
    have hpos : f.pos < f.bytes.length := by
      have := congrArg List.length hrest
      rw [File.length_rest, List.length_cons] at this
      omega
    by_cases ha : a = lf
    · have hd : settleReturn s = (lf, s₁) := by simp [settleReturn, hr, ha]
      rw [hd]
      refine ⟨1, by simp [hrest], ?_, ?_, hs₁, .inl rfl⟩
      · simp [hrest, ha, collapse_pair]
      · rw [hrest, ha]
        exact (whole_nil more).pair
    · obtain ⟨s₂, hb, hs₂⟩ := seek_back_shows hs₁ (n := 1) (by simp) (by simp; omega)
      have hd : settleReturn s = (cr, s₂) := by
        have hb' : Device.seek s₁ (.current (-1)) = (.ok _, s₂) := hb
        simp [settleReturn, hr, ha, hb']
      rw [hd]
      have hf : (f.advance 1).back 1 = f := rfl
      refine settled_here (hf ▸ hs₂) (collapse_singleton cr) ?_ (.inl rfl)
      rw [hrest]
      exact whole_singleton (by simp [ha])

theorem collapseRest_settled (s : σ) (atEnd : Bool) (error : Option IoError) (rest : Bytes)
    (room : Nat) : ∀ {f : File}, Shows s f → f.bytes.length ≤ top σ → (atEnd = true → f.rest = []) →
      error = none → Settled (collapseRest s atEnd error rest room) rest room f := by
  fun_induction collapseRest s atEnd error rest room with
  | case1 =>
    intro f hs hlen hend herror
    subst herror
    exact settled_here hs rfl (whole_nil _) (.inr (.inr (.inl rfl)))
  | case2 s error room b =>
    intro f hs hlen hend herror
    subst herror
    exact settled_at_end hs (hend rfl) room
  | case3 s atEnd error h =>
    intro f hs hlen hend herror
    subst herror
    exact settled_settleReturn hs hlen
  | case4 s atEnd error b h hb =>
    intro f hs hlen hend herror
    subst herror
    exact settled_here hs (collapse_singleton b) (whole_singleton fun hc => hb hc.1) (.inl rfl)
  | case5 s atEnd error room b h hroom r error' =>
    rename_i hr
    intro f hs hlen hend herror
    obtain ⟨hr₁, hs₁, _⟩ := readFully_facts hs room
    have htake : f.rest.take room = [] := by rw [← hr, hr₁]
    have hrest : f.rest = [] := (List.take_eq_nil_iff.1 htake).resolve_left hroom
    have he : error' = none := by simp [error', r, herror, hr₁]
    rw [htake] at hs₁
    rw [he]
    exact settled_at_end hs₁ hrest room
  | case6 s atEnd error room b h hroom r error' atEnd' a more hr hba =>
    rename_i ih
    intro f hs hlen hend herror
    obtain ⟨hr₁, hs₁, hend'⟩ := readFully_facts hs room
    have htake : f.rest.take room = a :: more := by rw [← hr, hr₁]
    have hi := ih hs₁ hlen hend' (by simp [error', r, herror, hr₁])
    apply settled_of_advance (n := room)
    rw [htake] at hi ⊢
    rw [hba.1, hba.2]
    exact hi.pair
  | case7 s atEnd error room b h hroom r error' atEnd' a more hr hba =>
    rename_i ih
    intro f hs hlen hend herror
    obtain ⟨hr₁, hs₁, hend'⟩ := readFully_facts hs room
    have htake : f.rest.take room = a :: more := by rw [← hr, hr₁]
    have hi := ih hs₁ hlen hend' (by simp [error', r, herror, hr₁])
    apply settled_of_advance (n := room)
    rw [htake] at hi ⊢
    exact hi.cons hba
  | case8 s atEnd error room b a more hba ih =>
    intro f hs hlen hend herror
    rw [hba.1, hba.2]
    exact (ih hs hlen hend herror).pair
  | case9 s atEnd error room b a more hba ih =>
    intro f hs hlen hend herror
    exact (ih hs hlen hend herror).cons hba

/-- Collapsed input, up to a place between line ends. -/
theorem readCollapsed_settled (hs : Shows s f) (hlen : f.bytes.length ≤ top σ) (n : Nat) :
    Settled (readCollapsed s n) [] n f := by
  obtain ⟨hr, hs₁, hend⟩ := readFully_facts hs n
  apply settled_of_advance (n := n)
  have herror : (readFully s n).1.error = none := by rw [hr]
  have h := collapseRest_settled _ _ _ (f.rest.take n) 0 hs₁ hlen hend herror
  have hb : (readFully s n).1.bytes = f.rest.take n := by rw [hr]
  rw [← hb] at h ⊢
  exact h

/-! ## How much is delivered -/

section

variable {σ : Type} [Device σ]

theorem length_collapseRest_le (s : σ) (atEnd : Bool) (error : Option IoError) (rest : Bytes)
    (room : Nat) :
    (collapseRest s atEnd error rest room).1.bytes.length ≤ rest.length + room := by
  fun_induction collapseRest s atEnd error rest room with
  | case1 => exact Nat.zero_le _
  | case2 => exact Nat.le_add_right _ _
  | case3 => exact Nat.le_refl _
  | case4 => exact Nat.le_refl _
  | case5 => exact Nat.le_add_right _ _
  | case6 s atEnd error room b h hroom r error' atEnd' a more hr hba ih =>
    have hl := length_bytes_readFully_le s room
    rw [show readFully s room = r from rfl, hr] at hl
    simp only [keep, List.length_cons, List.length_nil] at hl ⊢
    omega
  | case7 s atEnd error room b h hroom r error' atEnd' a more hr hba ih =>
    have hl := length_bytes_readFully_le s room
    rw [show readFully s room = r from rfl, hr] at hl
    simp only [keep, List.length_cons, List.length_nil] at hl ih ⊢
    omega
  | case8 s atEnd error room b a more hba ih =>
    simp only [keep, List.length_cons]
    omega
  | case9 s atEnd error room b a more hba ih =>
    simp only [keep, List.length_cons] at ih ⊢
    omega

theorem length_readCollapsed_le (s : σ) (n : Nat) : (readCollapsed s n).1.bytes.length ≤ n :=
  Nat.le_trans (length_collapseRest_le _ _ _ _ 0) (length_bytes_readFully_le s n)

theorem collapseRest_ne_nil (s : σ) (atEnd : Bool) (error : Option IoError) {rest : Bytes}
    (room : Nat) (h : rest ≠ []) : (collapseRest s atEnd error rest room).1.bytes ≠ [] := by
  fun_cases collapseRest s atEnd error rest room with
  | case1 => exact absurd rfl h
  | _ => simp [keep]

end

/-- Nothing comes only at the end. -/
theorem rest_eq_nil_of_readCollapsed (hs : Shows s f) {n : Nat} (hn : n ≠ 0)
    (h : (readCollapsed s n).1.bytes = []) : f.rest = [] := by
  obtain ⟨hr, _, _⟩ := readFully_facts hs n
  by_cases hb : (readFully s n).1.bytes = []
  · rw [hr] at hb
    exact (List.take_eq_nil_iff.1 hb).resolve_left hn
  · exact absurd h (collapseRest_ne_nil _ _ _ _ hb)

end ByteChannel.Text
