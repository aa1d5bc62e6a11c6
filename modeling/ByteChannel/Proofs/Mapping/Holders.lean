import ByteChannel.Proofs.Mapping

/-!
# Who holds an opening

An opening is counted by its holders. What a handle or a view does to the count is told by what it
held before and what it holds after: one more for the opening that it takes up, one less for the one
that it gives up, and nothing for all others. A view takes up an opening only where it is granted a
window on it.
-/

namespace ByteChannel

/-- One if an opening is held here. -/
def holds (held : Option Nat) (i : Nat) : Nat := if held = some i then 1 else 0

@[simp] theorem holds_none (i : Nat) : holds none i = 0 := rfl

theorem holds_some (i j : Nat) : holds (some i) j = if i = j then 1 else 0 := by
  simp [holds]

namespace MapTable

variable {t t' t'' : MapTable} {held held' held'' : Option Nat}

/-- How many hold an opening. -/
def holders (t : MapTable) (i : Nat) : Nat := ((t.opening? i).map (·.holders)).getD 0

theorem holders_eq_of_openings (h : t'.openings = t.openings) (i : Nat) :
    t'.holders i = t.holders i := by
  rw [holders, holders, opening?, opening?, h]

theorem holderCount_eq {m : Mapping} {i : Nat} (hm : m.holds = some i) (t : MapTable) :
    m.holderCount t = t.holders i := by
  rw [Mapping.holderCount, Mapping.opening?, hm]
  rfl

theorem length_openings_of_opened (h : ∀ i, t'.opened? i = t.opened? i) :
    t'.openings.length = t.openings.length := by
  have hplain : t'.openings.map Opening.plain = t.openings.map Opening.plain := by
    apply List.ext_getElem?
    intro i
    rw [List.getElem?_map, List.getElem?_map]
    exact h i
  simpa using congrArg List.length hplain

/-- Nobody holds what was not opened. -/
theorem opening?_of_holders {i : Nat} (h : 0 < t.holders i) : ∃ o, t.opening? i = some o := by
  cases ho : t.opening? i with
  | none =>
    rw [holders, ho] at h
    exact absurd h (Nat.lt_irrefl 0)
  | some o => exact ⟨o, rfl⟩

theorem holders_adjust {i : Nat} {o : Opening} (h : t.opening? i = some o) (f : Nat → Nat)
    (j : Nat) : (t.adjust i f).holders j = if i = j then f (t.holders j) else t.holders j := by
  have hj : t.openings[i]? = some o := h
  simp only [holders, opening?, adjust, List.getElem?_modify]
  by_cases hij : i = j
  · rw [if_pos hij, ← hij, hj]
    simp
  · rw [if_neg hij]
    cases t.openings[j]? with
    | none => simp
    | some o' => simp [hij]

theorem holders_length (t : MapTable) : t.holders t.openings.length = 0 := by
  simp [holders, opening?]

/-- What was held changes hands: between two tables the holders are as many more as `held'` takes
up, and as many less as `held` gives up. -/
def Passes (t : MapTable) (held : Option Nat) (t' : MapTable) (held' : Option Nat) : Prop :=
  (∀ i, holds held i ≤ t.holders i) →
    ∀ i, t'.holders i + holds held i = t.holders i + holds held' i

theorem Passes.trans (h : Passes t held t' held') (k : Passes t' held' t'' held'') :
    Passes t held t'' held'' := by
  intro hheld i
  have hfirst := h hheld
  have hsecond := k (fun j => by have := hfirst j; have := hheld j; omega) i
  have := hfirst i
  omega

theorem passes_of_eq (h : ∀ i, t'.holders i = t.holders i) : Passes t held t' held :=
  fun _ i => by rw [h]

theorem Passes.refl (t : MapTable) (held : Option Nat) : Passes t held t held :=
  passes_of_eq fun _ => rfl

/-- What was taken up is there. -/
theorem Passes.opened {i : Nat} (h : Passes t none t' (some i)) : ∃ o, t'.opening? i = some o := by
  apply opening?_of_holders
  have hi := h (fun _ => Nat.zero_le _) i
  rw [holds_none, holds_some, if_pos rfl] at hi
  omega

theorem passes_retain {i : Nat} {o : Opening} (h : t.opening? i = some o) :
    Passes t none (t.retain i) (some i) := by
  intro _ j
  rw [retain, holders_adjust h, holds_none, holds_some]
  by_cases hij : i = j
  · rw [if_pos hij, if_pos hij]
  · rw [if_neg hij, if_neg hij]

theorem passes_release (t : MapTable) (held : Option Nat) :
    Passes t held ((held.map t.release).getD t) none := by
  intro hheld j
  cases held with
  | none => rfl
  | some i =>
    have hpos : 0 < t.holders i := by
      have hi := hheld i
      rwa [holds_some, if_pos rfl] at hi
    obtain ⟨o, ho⟩ := opening?_of_holders hpos
    rw [Option.map_some, Option.getD_some, release, holders_adjust ho, holds_none, holds_some]
    by_cases hij : i = j
    · subst hij
      rw [if_pos rfl, if_pos rfl]
      omega
    · rw [if_neg hij, if_neg hij]

/-- One more is taken up before another is given up. -/
theorem Passes.exchange (h : Passes t none t' held') (held : Option Nat) :
    Passes t held ((held.map t'.release).getD t') held' := by
  intro hheld j
  have htake := h fun _ => Nat.zero_le _
  have hrelease := passes_release t' held fun k => by
    have hk := htake k
    have := hheld k
    rw [holds_none] at hk
    omega
  have htaken := htake j
  have hgiven := hrelease j
  rw [holds_none] at htaken hgiven
  omega

/-- A new opening has one holder. -/
theorem holders_ofOpening (t : MapTable) {o : Opening} (ho : o.holders = 1) (i : Nat) :
    (Mapping.ofOpening t o).2.holders i = t.holders i + holds (some t.openings.length) i := by
  rw [holders, opening?_ofOpening, holds_some]
  by_cases he : i = t.openings.length
  · rw [if_pos he, if_pos he.symm, he, holders_length, Option.map_some, Option.getD_some, ho]
  · rw [if_neg he, if_neg (Ne.symm he), Nat.add_zero, holders]

theorem passes_clone {m : Mapping} (h : ∀ i, m.holds = some i → ∃ o, t.opening? i = some o) :
    Passes t none (m.clone t).2 m.holds := by
  unfold Mapping.clone
  cases hm : m.holds with
  | none => exact .refl t none
  | some i =>
    obtain ⟨o, ho⟩ := h i hm
    exact passes_retain ho

/-- A mapping was made with one holder, or it was refused and nothing changed. -/
def Makes (t : MapTable) (r : Except ChannelError Mapping × MapTable) : Prop :=
  (∃ e, r = (.error e, t)) ∨
    ∃ t', r = (.ok ⟨some t.openings.length⟩, t') ∧ t'.openings.length = t.openings.length + 1 ∧
      Passes t none t' (some t.openings.length)

theorem makes_ofOpening (t : MapTable) {o : Opening} (ho : o.holders = 1) :
    Makes t (.ok (Mapping.ofOpening t o).1, (Mapping.ofOpening t o).2) := by
  refine .inr ⟨_, rfl, ?_, fun _ i => ?_⟩
  · exact List.length_append
  · rw [holds_none, Nat.add_zero]
    exact holders_ofOpening t ho i

theorem makes_openPath (t : MapTable) (path : String) (mode : MapMode) :
    Makes t (Mapping.openPath t path mode) := by
  unfold Mapping.openPath
  dsimp only
  split
  · exact .inl ⟨_, rfl⟩
  · exact makes_ofOpening t rfl

theorem makes_ofFile (t : MapTable) (file : OpenFile) (mode : MapMode) (size : Option Nat) :
    Makes t (Mapping.ofFile t file mode size) := by
  unfold Mapping.ofFile
  dsimp only
  split
  · exact .inl ⟨_, rfl⟩
  · exact makes_ofOpening t rfl

/-! ## Windows -/

/-- Whether the system granted a window on a mapping between two tables. -/
def granted (t t' : MapTable) (m : Mapping) : Bool :=
  ((m.opening? t).map denies) == some none &&
    (List.range t'.windowsAsked).any fun k => t.windowsAsked ≤ k && !t.refusesWindow k

theorem granted_iff (t t' : MapTable) (m : Mapping) : granted t t' m = true ↔
    (m.opening? t).map denies = some none ∧
      ∃ k, t.windowsAsked ≤ k ∧ k < t'.windowsAsked ∧ t.refusesWindow k = false := by
  simp only [granted, Bool.and_eq_true, beq_iff_eq, List.any_eq_true, List.mem_range,
    decide_eq_true_eq, Bool.not_eq_eq_eq_not, Bool.not_true]
  constructor
  · rintro ⟨h, k, hk, hle, hr⟩
    exact ⟨h, k, hle, hk, hr⟩
  · rintro ⟨h, k, hle, hk, hr⟩
    exact ⟨h, k, hk, hle, hr⟩

theorem denies_congr (h : ∀ i, t'.opened? i = t.opened? i) (m : Mapping) :
    (m.opening? t').map denies = (m.opening? t).map denies := by
  have hplain (t : MapTable) (i : Nat) :
      (t.opening? i).map denies = (t.opened? i).map denies := by
    rw [opened?, Option.map_map]
    rfl
  cases hm : m.holds with
  | none => simp only [Mapping.opening?, hm, Option.bind_none]
  | some i => simp only [Mapping.opening?, hm, Option.bind_some, hplain, h]

/-- A window was granted early or late. -/
theorem granted_trans (hopened : ∀ i, t'.opened? i = t.opened? i)
    (hrefuses : t'.refusesWindow = t.refusesWindow) (hle : t.windowsAsked ≤ t'.windowsAsked)
    (hle' : t'.windowsAsked ≤ t''.windowsAsked) (m : Mapping) :
    granted t t'' m = (granted t t' m || granted t' t'' m) := by
  rw [Bool.eq_iff_iff, Bool.or_eq_true, granted_iff, granted_iff, granted_iff,
    denies_congr hopened, hrefuses, ← and_or_left]
  refine and_congr_right fun _ => ⟨?_, ?_⟩
  · rintro ⟨k, hk, hk', hr⟩
    by_cases hlt : k < t'.windowsAsked
    · exact .inl ⟨k, hk, hlt, hr⟩
    · exact .inr ⟨k, Nat.le_of_not_lt hlt, hk', hr⟩
  · rintro (⟨k, hk, hk', hr⟩ | ⟨k, hk, hk', hr⟩)
    · exact ⟨k, hk, Nat.lt_of_lt_of_le hk' hle', hr⟩
    · exact ⟨k, Nat.le_trans hle hk, hk', hr⟩

theorem granted_of_asked_eq (h : t'.windowsAsked = t.windowsAsked) (m : Mapping) :
    granted t t' m = false := by
  rw [Bool.eq_false_iff, Ne, granted_iff]
  rintro ⟨_, k, hk, hk', _⟩
  omega

/-- The one window that was asked for was granted. -/
theorem granted_iff_askWindow {m : Mapping} {o : Opening} (ho : m.opening? t = some o)
    (ha : t'.windowsAsked = t.windowsAsked + 1) :
    granted t t' m = true ↔ (t.askWindow o).1 = none := by
  rw [granted_iff, ho, askWindow, Option.or_eq_none_iff, Option.map_some, Option.some.injEq]
  refine and_congr_right fun _ => ⟨?_, ?_⟩
  · rintro ⟨k, hk, hk', hr⟩
    obtain rfl : k = t.windowsAsked := by omega
    rw [hr]
    rfl
  · intro hnone
    refine ⟨t.windowsAsked, Nat.le_refl _, by omega, ?_⟩
    cases hr : t.refusesWindow t.windowsAsked with
    | false => rfl
    | true =>
      rw [hr] at hnone
      cases hnone

end MapTable

namespace View

open MapTable (Passes granted)

variable {m : Mapping} {v v' v'' : View} {t t' t'' : MapTable}

/-- A view and its table after windows were asked for on one mapping: the view is attached to it
once a window was granted, and the holders follow. -/
structure Rebinds (m : Mapping) (v : View) (t : MapTable) (v' : View) (t' : MapTable) : Prop where
  opened : ∀ i, t'.opened? i = t.opened? i
  refuses : t'.refusesWindow = t.refusesWindow
  asked_le : t.windowsAsked ≤ t'.windowsAsked
  attached : v'.attached = if granted t t' m then m.holds else v.attached
  passes : Passes t v.attached t' v'.attached

theorem Rebinds.trans (h : Rebinds m v t v' t') (k : Rebinds m v' t' v'' t'') :
    Rebinds m v t v'' t'' where
  opened i := (k.opened i).trans (h.opened i)
  refuses := k.refuses.trans h.refuses
  asked_le := Nat.le_trans h.asked_le k.asked_le
  attached := by
    rw [k.attached, h.attached, MapTable.granted_trans h.opened h.refuses h.asked_le k.asked_le]
    cases granted t t' m <;> cases granted t' t'' m <;> rfl
  passes := h.passes.trans k.passes

/-- Nothing but files and the window was changed. -/
theorem rebinds_of_same (hv : v'.attached = v.attached) (ho : t'.openings = t.openings)
    (hr : t'.refusesWindow = t.refusesWindow) (ha : t'.windowsAsked = t.windowsAsked) :
    Rebinds m v t v' t' where
  opened i := by rw [MapTable.opened?, MapTable.opened?, MapTable.opening?, MapTable.opening?, ho]
  refuses := hr
  asked_le := Nat.le_of_eq ha.symm
  attached := by rw [hv, MapTable.granted_of_asked_eq ha]; rfl
  passes := hv ▸ MapTable.passes_of_eq (MapTable.holders_eq_of_openings ho)

theorem rebinds_refl (m : Mapping) (v : View) (t : MapTable) : Rebinds m v t v t :=
  rebinds_of_same rfl rfl rfl rfl

theorem openings_sync (v : View) (t : MapTable) : (v.sync t).2.openings = t.openings := by
  unfold sync
  dsimp only
  split
  · split <;> rfl
  · rfl

theorem rebinds_sync (m : Mapping) (v : View) (t : MapTable) : Rebinds m v t v (v.sync t).2 :=
  rebinds_of_same rfl (openings_sync v t) (like_sync v t).refusesWindow (windowsAsked_sync v t)

theorem rebinds_unmap (m : Mapping) (v : View) (t : MapTable) : Rebinds m v t v.unmap t :=
  rebinds_of_same rfl rfl rfl rfl

theorem rebinds_store? [Paging] (m : Mapping) {v v' : View} {t t' : MapTable} {pos : Nat}
    {bs : Bytes} (h : v.store? t pos bs = some (v', t')) : Rebinds m v t v' t' := by
  unfold store? at h
  split at h
  · next o w ho hw =>
    split at h
    · cases h
    · cases h
      unfold MapTable.setFile
      split
      · exact rebinds_of_same rfl rfl rfl rfl
      · exact rebinds_refl m v t
    · cases h
      exact rebinds_of_same rfl rfl rfl rfl
  · cases h

/-- The system is asked for a window at most once, and the view is remapped where it is granted. -/
theorem rebinds_remap (v : View) (t : MapTable) (m : Mapping) (offset len : Nat) :
    let r := v.remap t m offset len
    Rebinds m v t r.2.1 r.2.2 ∧ (r.1 = .ok () ↔ granted t r.2.2 m = true) := by
  have hstill (v' : View) (e : ChannelError) (hv : v'.attached = v.attached) :
      Rebinds m v t v' t ∧
        ((Except.error e : Except ChannelError Unit) = .ok () ↔ granted t t m = true) := by
    rw [MapTable.granted_of_asked_eq rfl]
    exact ⟨rebinds_of_same hv rfl rfl rfl, by simp⟩
  unfold remap
  cases hm : m.holds with
  | none => exact hstill v _ rfl
  | some i =>
    cases ho : m.opening? t with
    | none => exact hstill v _ rfl
    | some o =>
      have hi : t.opening? i = some o := by
        rw [← ho, Mapping.opening?, hm]
        rfl
      dsimp only
      by_cases hle : o.length ≤ offset
      · rw [if_pos hle]
        exact hstill v.unmap _ rfl
      rw [if_neg hle]
      have hlike : t.Like (t.askWindow o).2 := t.like_askWindow o
      cases hask : (t.askWindow o).1 with
      | some e =>
        have hno : granted t (t.askWindow o).2 m = false := by
          rw [Bool.eq_false_iff, Ne, MapTable.granted_iff_askWindow ho rfl, hask]
          exact Option.some_ne_none e
        refine ⟨⟨hlike.opened, hlike.refusesWindow, Nat.le_succ _, ?_, ?_⟩, ?_⟩
        · rw [hno]
          rfl
        · exact MapTable.passes_of_eq fun _ => rfl
        · rw [hno]
          simp
      | none =>
        have hlike' := (hlike.trans (MapTable.like_retain _ i)).trans
          (MapTable.like_release _ v.attached)
        have hasked : ((v.attached.map ((t.askWindow o).2.retain i).release).getD
            ((t.askWindow o).2.retain i)).windowsAsked = t.windowsAsked + 1 :=
          MapTable.windowsAsked_release _ _
        have hyes := (MapTable.granted_iff_askWindow ho hasked).2 hask
        refine ⟨⟨hlike'.opened, hlike'.refusesWindow, hasked ▸ Nat.le_succ _, ?_, ?_⟩, ?_⟩
        · exact ((if_pos hyes).trans hm).symm
        · have hi' : (t.askWindow o).2.opening? i = some o := hi
          exact (MapTable.passes_retain hi').exchange v.attached
        · exact iff_of_true rfl hyes

end View

end ByteChannel
