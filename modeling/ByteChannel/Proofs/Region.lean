import Mathlib.Order.MinMax
import ByteChannel.Region

/-!
# Cursors in exact integers

Every move of a cursor has a goal in exact integers and leads to the place of the region that lies
nearest to it. A region follows as long as the goals are words. The sum behind a move is made before
it is bounded, so a move whose goal is no word has no result, also where the region ends far in
front of that goal. Three bare words, which nothing holds in order, go through the same states under
the same moves: the order that a region carries with it holds after each of them, and no difference
of two of its places falls below zero.
-/

namespace ByteChannel.Region

/-! ## Moves and their goals -/

inductive Move
  | ahead (n : UInt64)
  | back
  | moveTo (pos : UInt64)

/-- Where a move leads from a place, in a region that starts at `base`. -/
def Move.goal (base place : Int) : Move → Int
  | ahead n => place + n.toNat
  | back => place - 1
  | moveTo pos => base + pos.toNat

/-- The place of the region that lies nearest to the goal. -/
def Move.lands (base limit place : Int) (m : Move) : Int :=
  max base (min (m.goal base place) limit)

def landsAfter (base limit place : Int) (moves : List Move) : Int :=
  moves.foldl (Move.lands base limit) place

/-- No goal on the way lies behind the largest word. -/
def GoalsFit (base limit place : Int) (moves : List Move) : Prop :=
  ∀ front m rest, moves = front ++ m :: rest →
    m.goal base (landsAfter base limit place front) ≤ (maxWord : Int)

section

variable {base limit place : Int} {m : Move} {moves : List Move}

/-- A way forward ends nowhere further back. -/
theorem Move.le_lands_ahead (base : Int) (h : place ≤ limit) (n : UInt64) :
    place ≤ (Move.ahead n).lands base limit place := by
  simp only [lands, goal]
  omega

@[simp]
theorem landsAfter_cons (base limit place : Int) (m : Move) (moves : List Move) :
    landsAfter base limit place (m :: moves) =
      landsAfter base limit (m.lands base limit place) moves := rfl

theorem goalsFit_nil (base limit place : Int) : GoalsFit base limit place [] := by
  intro front m rest h
  exact absurd h.symm (List.append_ne_nil_of_right_ne_nil front (List.cons_ne_nil m rest))

theorem goalsFit_cons :
    GoalsFit base limit place (m :: moves) ↔
      m.goal base place ≤ (maxWord : Int) ∧
        GoalsFit base limit (m.lands base limit place) moves := by
  constructor
  · intro h
    refine ⟨h [] m moves rfl, ?_⟩
    intro front m' rest hmoves
    exact h (m :: front) m' rest (congrArg (m :: ·) hmoves)
  · rintro ⟨hfirst, hmore⟩ front m' rest h
    cases front with
    | nil =>
      cases h
      exact hfirst
    | cons first front =>
      cases h
      exact hmore front m' rest rfl

instance decidableGoalsFit (base limit : Int) :
    ∀ (place : Int) (moves : List Move), Decidable (GoalsFit base limit place moves)
  | place, [] => isTrue (goalsFit_nil base limit place)
  | place, m :: moves =>
    have := decidableGoalsFit base limit (m.lands base limit place) moves
    decidable_of_iff _ goalsFit_cons.symm

end

/-! ## Moves of a region -/

def move? (r : Region) : Move → Option Region
  | .ahead n => r.bump? n.toNat
  | .back => some (r.stepBack?.getD r)
  | .moveTo pos => r.moveTo? pos.toNat

def moveAll? (r : Region) : List Move → Option Region
  | [] => some r
  | m :: moves => (r.move? m).bind (·.moveAll? moves)

/-- Both ends stay, and the cursor goes as near to the goal as it can. -/
structure Follows (r r' : Region) (m : Move) : Prop where
  base : r'.base = r.base
  limit : r'.limit = r.limit
  next : (r'.next : Int) = m.lands r.base r.limit r.next

variable {r r' : Region} {m : Move}

theorem follows_bump (r : Region) (n : UInt64) : r.Follows (r.bump n.toNat) (.ahead n) := by
  have hb := r.base_le_next
  have hl := r.next_le_limit
  refine ⟨rfl, rfl, ?_⟩
  rw [next_bump]
  simp only [Move.lands, Move.goal]
  omega

theorem follows_moveTo (r : Region) (pos : UInt64) :
    r.Follows (r.moveTo pos.toNat) (.moveTo pos) := by
  have hb := r.base_le_next
  have hl := r.next_le_limit
  refine ⟨rfl, rfl, ?_⟩
  rw [next_moveTo]
  simp only [Move.lands, Move.goal]
  omega

theorem follows_back (r : Region) : r.Follows (r.stepBack?.getD r) .back := by
  have hb := r.base_le_next
  have hl := r.next_le_limit
  cases hback : r.stepBack? with
  | none =>
    have hstart := (stepBack?_eq_none_iff r).1 hback
    rw [consumed] at hstart
    refine ⟨rfl, rfl, ?_⟩
    simp only [Option.getD_none, Move.lands, Move.goal]
    omega
  | some r' =>
    obtain ⟨hbase, hlimit, hnext⟩ := stepBack?_spec hback
    have hb' := r'.base_le_next
    refine ⟨hbase, hlimit, ?_⟩
    simp only [Option.getD_some, Move.lands, Move.goal]
    omega

theorem move?_follows (h : m.goal r.base r.next ≤ (maxWord : Int)) :
    ∃ r', r.move? m = some r' ∧ r.Follows r' m := by
  cases m with
  | ahead n =>
    simp only [Move.goal] at h
    exact ⟨_, if_pos (by omega), r.follows_bump n⟩
  | back => exact ⟨_, rfl, r.follows_back⟩
  | moveTo pos =>
    simp only [Move.goal] at h
    exact ⟨_, if_pos (by omega), r.follows_moveTo pos⟩

theorem follows_of_move? (h : r.move? m = some r') : r.Follows r' m := by
  cases m with
  | ahead n =>
    simp only [move?, bump?] at h
    split at h <;> cases h
    exact r.follows_bump n
  | back =>
    cases h
    exact r.follows_back
  | moveTo pos =>
    simp only [move?, moveTo?] at h
    split at h <;> cases h
    exact r.follows_moveTo pos

theorem move?_eq_none (hword : r.limit ≤ maxWord) (h : ¬ m.goal r.base r.next ≤ (maxWord : Int)) :
    r.move? m = none := by
  have hl := r.next_le_limit
  cases m with
  | ahead n =>
    simp only [Move.goal] at h
    exact if_neg (by omega)
  | back =>
    simp only [Move.goal] at h
    omega
  | moveTo pos =>
    simp only [Move.goal] at h
    exact if_neg (by omega)

theorem moveAll?_lands {r : Region} {moves : List Move}
    (h : GoalsFit r.base r.limit r.next moves) :
    ∃ r', r.moveAll? moves = some r' ∧ r'.base = r.base ∧ r'.limit = r.limit ∧
      (r'.next : Int) = landsAfter r.base r.limit r.next moves := by
  induction moves generalizing r with
  | nil => exact ⟨r, rfl, rfl, rfl, rfl⟩
  | cons m moves ih =>
    obtain ⟨hgoal, hmore⟩ := goalsFit_cons.1 h
    obtain ⟨r₁, hr₁, hf⟩ := move?_follows hgoal
    rw [← hf.next, ← hf.base, ← hf.limit] at hmore
    obtain ⟨r₂, hr₂, hbase, hlimit, hnext⟩ := ih hmore
    refine ⟨r₂, ?_, hbase.trans hf.base, hlimit.trans hf.limit, ?_⟩
    · rw [moveAll?, hr₁, Option.bind_some, hr₂]
    · rw [hnext, landsAfter_cons, hf.base, hf.limit, hf.next]

theorem moveAll?_eq_none {r : Region} (hword : r.limit ≤ maxWord) {moves : List Move}
    (h : ¬ GoalsFit r.base r.limit r.next moves) : r.moveAll? moves = none := by
  induction moves generalizing r with
  | nil => exact absurd (goalsFit_nil _ _ _) h
  | cons m moves ih =>
    by_cases hgoal : m.goal r.base r.next ≤ (maxWord : Int)
    · obtain ⟨r₁, hr₁, hf⟩ := move?_follows hgoal
      have hmore : ¬ GoalsFit r₁.base r₁.limit r₁.next moves := by
        rw [hf.base, hf.limit, hf.next]
        exact fun hfit => h (goalsFit_cons.2 ⟨hgoal, hfit⟩)
      rw [moveAll?, hr₁, Option.bind_some]
      exact ih (hf.limit ▸ hword) hmore
    · rw [moveAll?, move?_eq_none hword hgoal, Option.bind_none]

/-! ## Bare words -/

/-- The places of a region as three words, in any order. -/
structure Bare where
  base : UInt64
  next : UInt64
  limit : UInt64

namespace Bare

/-- A sum, if it is a word. -/
def sum? (a b : UInt64) : Option UInt64 :=
  if a.toNat + b.toNat ≤ maxWord then some (a + b) else none

/-- A difference, if it is not below zero. -/
def difference? (a b : UInt64) : Option UInt64 := if b ≤ a then some (a - b) else none

/-- Between two bounds, if they are in order. -/
def between? (lo hi a : UInt64) : Option UInt64 :=
  if lo ≤ hi then some (max lo (min a hi)) else none

def ofWords? (base next limit : UInt64) : Option Bare :=
  let limit := max limit base
  (between? base limit next).map fun next => ⟨base, next, limit⟩

def available? (w : Bare) : Option UInt64 := difference? w.limit w.next

def consumed? (w : Bare) : Option UInt64 := difference? w.next w.base

def capacity? (w : Bare) : Option UInt64 := difference? w.limit w.base

def move? (w : Bare) : Move → Option Bare
  | .ahead n => (sum? w.next n).map fun goal => { w with next := min goal w.limit }
  | .back =>
    if w.base < w.next then (difference? w.next 1).map fun next => { w with next := next }
    else some w
  | .moveTo pos => (sum? w.base pos).map fun goal => { w with next := min goal w.limit }

def moveAll? (w : Bare) : List Move → Option Bare
  | [] => some w
  | m :: moves => (w.move? m).bind (·.moveAll? moves)

/-- The words are the places of the region. -/
structure Shows (w : Bare) (r : Region) : Prop where
  base : w.base.toNat = r.base
  next : w.next.toNat = r.next
  limit : w.limit.toNat = r.limit

theorem toNat_le_maxWord (a : UInt64) : a.toNat ≤ maxWord := Nat.le_pred_of_lt a.toNat_lt

theorem toNat_add {a b : UInt64} (h : a.toNat + b.toNat ≤ maxWord) :
    (a + b).toNat = a.toNat + b.toNat := by
  rw [UInt64.toNat_add]
  exact Nat.mod_eq_of_lt (Nat.lt_succ_of_le h)

theorem difference?_eq_some {a b : UInt64} (h : b.toNat ≤ a.toNat) :
    difference? a b = some (a - b) ∧ (a - b).toNat = a.toNat - b.toNat := by
  have hle : b ≤ a := UInt64.le_iff_toNat_le.2 h
  exact ⟨if_pos hle, UInt64.toNat_sub_of_le a b hle⟩

theorem toNat_difference? {a b : UInt64} (h : b.toNat ≤ a.toNat) :
    (difference? a b).map UInt64.toNat = some (a.toNat - b.toNat) := by
  obtain ⟨hd, hsub⟩ := difference?_eq_some h
  rw [hd, Option.map_some, hsub]

theorem ofWords?_shows (base next limit : UInt64) :
    ∃ w, ofWords? base next limit = some w ∧
      w.Shows (.clamped base.toNat next.toNat limit.toNat) ∧ w.limit = max limit base := by
  have hle : base ≤ max limit base := by
    rw [UInt64.le_iff_toNat_le, UInt64.toNat_max]
    exact Nat.le_max_right _ _
  refine ⟨⟨base, max base (min next (max limit base)), max limit base⟩, ?_, ⟨rfl, ?_, ?_⟩, rfl⟩
  · rw [ofWords?, between?, if_pos hle, Option.map_some]
  · simp only [UInt64.toNat_max, UInt64.toNat_min, clamped]
  · simp only [UInt64.toNat_max, clamped]

namespace Shows

variable {w w' : Bare}

theorem base_le_next (h : w.Shows r) : w.base ≤ w.next := by
  rw [UInt64.le_iff_toNat_le, h.base, h.next]
  exact r.base_le_next

theorem next_le_limit (h : w.Shows r) : w.next ≤ w.limit := by
  rw [UInt64.le_iff_toNat_le, h.next, h.limit]
  exact r.next_le_limit

theorem limit_le (h : w.Shows r) : r.limit ≤ maxWord := h.limit ▸ toNat_le_maxWord w.limit

/-- The differences of the words are there, and are those of the region. -/
theorem sizes (h : w.Shows r) :
    w.available?.map UInt64.toNat = some r.available ∧
      w.consumed?.map UInt64.toNat = some r.consumed ∧
      w.capacity?.map UInt64.toNat = some r.capacity := by
  have hb := UInt64.le_iff_toNat_le.1 h.base_le_next
  have hl := UInt64.le_iff_toNat_le.1 h.next_le_limit
  refine ⟨?_, ?_, ?_⟩
  · rw [available?, toNat_difference? hl, h.limit, h.next, available]
  · rw [consumed?, toNat_difference? hb, h.next, h.base, consumed]
  · rw [capacity?, toNat_difference? (hb.trans hl), h.limit, h.base, capacity]

/-- A move whose sum is bounded by the end. -/
theorem toSum (h : w.Shows r) (a b : UInt64) (r' : Region) (hbase : r'.base = r.base)
    (hlimit : r'.limit = r.limit) (hnext : r'.next = min (a.toNat + b.toNat) r.limit) :
    Option.Rel Shows ((sum? a b).map fun goal => { w with next := min goal w.limit })
      (if a.toNat + b.toNat ≤ maxWord then some r' else none) := by
  unfold sum?
  by_cases hfit : a.toNat + b.toNat ≤ maxWord
  · rw [if_pos hfit, if_pos hfit, Option.map_some]
    refine .some ⟨h.base.trans hbase.symm, ?_, h.limit.trans hlimit.symm⟩
    rw [UInt64.toNat_min, toNat_add hfit, h.limit, hnext]
  · rw [if_neg hfit, if_neg hfit, Option.map_none]
    exact .none

theorem move? (h : w.Shows r) (m : Move) : Option.Rel Shows (w.move? m) (r.move? m) := by
  cases m with
  | ahead n =>
    have hsum := h.toSum w.next n (r.bump n.toNat) rfl rfl (by
      rw [h.next, next_bump])
    rw [h.next] at hsum
    exact hsum
  | moveTo pos =>
    have hsum := h.toSum w.base pos (r.moveTo pos.toNat) rfl rfl (by
      rw [h.base, next_moveTo])
    rw [h.base] at hsum
    exact hsum
  | back =>
    have hiff : w.base < w.next ↔ r.base < r.next := by
      rw [UInt64.lt_iff_toNat_lt, h.base, h.next]
    unfold Bare.move? Region.move? stepBack?
    dsimp only
    by_cases hlt : r.base < r.next
    · have hone : (1 : UInt64).toNat ≤ w.next.toNat := by
        rw [h.next]
        exact Nat.one_le_of_lt hlt
      obtain ⟨hd, hnext⟩ := difference?_eq_some hone
      rw [if_pos (hiff.2 hlt), dif_pos hlt, hd, Option.map_some, Option.getD_some]
      refine .some ⟨h.base, ?_, h.limit⟩
      rw [hnext, h.next]
      rfl
    · rw [if_neg (fun hw => hlt (hiff.1 hw)), dif_neg hlt, Option.getD_none]
      exact .some h

theorem moveAll? (h : w.Shows r) (moves : List Move) :
    Option.Rel Shows (w.moveAll? moves) (r.moveAll? moves) := by
  induction moves generalizing w r with
  | nil => exact .some h
  | cons m moves ih =>
    have hm := h.move? m
    rw [Bare.moveAll?, Region.moveAll?]
    generalize w.move? m = moved, r.move? m = moved' at hm
    cases hm with
    | none => exact .none
    | some hs => exact ih hs

theorem exists_of_rel {o : Option Bare} (h : Option.Rel Shows o (some r)) :
    ∃ w, o = some w ∧ w.Shows r := by
  cases h with
  | some hs => exact ⟨_, rfl, hs⟩

theorem eq_none_of_rel {o : Option Bare} (h : Option.Rel Shows o none) : o = none := by
  cases h with
  | none => rfl

/-- No move forward takes the cursor back. -/
theorem next_le_of_ahead (h : w.Shows r) {n : UInt64} (hw : w.move? (.ahead n) = some w') :
    w.next ≤ w'.next := by
  have hrel := h.move? (.ahead n)
  rw [hw] at hrel
  generalize hr : r.move? (.ahead n) = moved at hrel
  cases hrel with
  | @some _ r' hs =>
    have hle : (r.next : Int) ≤ r.limit := Int.ofNat_le.2 r.next_le_limit
    have hlands := Move.le_lands_ahead r.base hle n
    have hnext := (follows_of_move? hr).next
    rw [UInt64.le_iff_toNat_le, h.next, hs.next]
    omega

end Shows

/-- Words that stand for a region from `base` to `limit` with the cursor at `place`. -/
structure Stands (w : Bare) (r : Region) (base limit : UInt64) (place : Int) : Prop where
  shows : w.Shows r
  base : w.base = base
  limit : w.limit = limit
  next : (w.next.toNat : Int) = place
  base_le_next : w.base ≤ w.next
  next_le_limit : w.next ≤ w.limit
  available : w.available?.map UInt64.toNat = some r.available
  consumed : w.consumed?.map UInt64.toNat = some r.consumed
  capacity : w.capacity?.map UInt64.toNat = some r.capacity
  consumed_add_available : r.consumed + r.available = r.capacity
  ahead : ∀ n w', w.move? (.ahead n) = some w' → w.next ≤ w'.next

theorem Shows.stands {w : Bare} {base limit : UInt64} (h : w.Shows r) (hb : r.base = base.toNat)
    (hl : r.limit = limit.toNat) : w.Stands r base limit r.next where
  shows := h
  base := UInt64.toNat_inj.1 (h.base.trans hb)
  limit := UInt64.toNat_inj.1 (h.limit.trans hl)
  next := congrArg Nat.cast h.next
  base_le_next := h.base_le_next
  next_le_limit := h.next_le_limit
  available := h.sizes.1
  consumed := h.sizes.2.1
  capacity := h.sizes.2.2
  consumed_add_available := r.consumed_add_available
  ahead _ _ := h.next_le_of_ahead

end Bare

/-- Of three words a region is made, and moved by words. While all goals are words, both ends stay
where they were put, and the cursor stands where exact integers say, between them. With the first
goal that is no word there is no result. -/
theorem moves_to_nearest_place (base next limit : UInt64) (moves : List Move) :
    let last := max limit base
    let start : Int := max base.toNat (min next.toNat last.toNat)
    let bare := (Bare.ofWords? base next limit).bind (·.moveAll? moves)
    let region := (clamped base.toNat next.toNat limit.toNat).moveAll? moves
    (GoalsFit base.toNat last.toNat start moves →
      ∃ w r, bare = some w ∧ region = some r ∧
        w.Stands r base last (landsAfter base.toNat last.toNat start moves)) ∧
    (¬ GoalsFit base.toNat last.toNat start moves → bare = none ∧ region = none) := by
  intro last start bare region
  obtain ⟨w, hw, hshows, hlimit⟩ := Bare.ofWords?_shows base next limit
  have hends : (clamped base.toNat next.toNat limit.toNat).limit = last.toNat := by
    rw [← hshows.limit, hlimit]
  have hstart : ((clamped base.toNat next.toNat limit.toNat).next : Int) = start := by
    simp only [clamped, start, last, UInt64.toNat_max]
    omega
  have hrel : Option.Rel Bare.Shows bare region := by
    simp only [bare, hw, Option.bind_some]
    exact hshows.moveAll? moves
  rw [← hends, ← hstart]
  constructor
  · intro hfit
    obtain ⟨r, hr, hrbase, hrlimit, hrnext⟩ := moveAll?_lands hfit
    have hregion : region = some r := hr
    rw [hregion] at hrel
    obtain ⟨w', hw', hs⟩ := Bare.Shows.exists_of_rel hrel
    refine ⟨w', r, hw', hregion, ?_⟩
    rw [base_clamped] at hrnext
    rw [← hrnext]
    exact hs.stands hrbase (hrlimit.trans hends)
  · intro hfit
    have hregion : region = none := moveAll?_eq_none hshows.limit_le hfit
    rw [hregion] at hrel
    exact ⟨Bare.Shows.eq_none_of_rel hrel, hregion⟩

theorem moves_to_nearest_place_words :
    let way : List Move := [.back, .back, .ahead 18446744073709551610, .moveTo 2,
      .moveTo 18446744073709551612, .back]
    let beyond : List Move := way ++ [.ahead 18446744073709551610]
    (∃ w r, (Bare.ofWords? 3 9 7).bind (·.moveAll? way) = some w ∧
      (clamped 3 9 7).moveAll? way = some r ∧ w.Stands r 3 7 6) ∧
    (clamped 3 9 7).moveAll? beyond = none := by
  intro way beyond
  exact ⟨(moves_to_nearest_place 3 9 7 way).1 (by decide),
    ((moves_to_nearest_place 3 9 7 beyond).2 (by decide)).2⟩

/-- The place nearest to the goal is there, but the goal is no word. -/
theorem ahead_beyond_words :
    let r := clamped 0 1 2
    let m := Move.ahead 18446744073709551615
    m.lands r.base r.limit r.next = 2 ∧ r.move? m = none := by
  decide

end ByteChannel.Region
