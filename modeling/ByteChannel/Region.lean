import ByteChannel.Limits

/-!
# Cursor regions

A region is a span of positions with a cursor in it. Its two ends never move; the
cursor moves forward, back by one, or to a place, and always stays between the ends.
A move by a caller's amount has a result only if the sum behind it fits a word.
-/

namespace ByteChannel

structure Region where
  base : Nat
  next : Nat
  limit : Nat
  base_le_next : base ≤ next := by omega
  next_le_limit : next ≤ limit := by omega
  deriving DecidableEq

namespace Region

def empty : Region := { base := 0, next := 0, limit := 0 }

instance : Inhabited Region := ⟨empty⟩

/-- The region from `base` to `limit`, with the end moved up to `base` and the cursor moved in
between where the arguments do not lie in order. -/
def clamped (base next limit : Nat) : Region :=
  { base := base, next := max base (min next (max limit base)), limit := max limit base }

/-- What lies between the cursor and the end. -/
def available (r : Region) : Nat := r.limit - r.next

/-- What lies between the start and the cursor. -/
def consumed (r : Region) : Nat := r.next - r.base

def capacity (r : Region) : Nat := r.limit - r.base

def isCollapsed (r : Region) : Bool := r.base == r.limit

/-- Moves the cursor forward by `n`, to the end at most. -/
def bump (r : Region) (n : Nat) : Region :=
  { r with
    next := min (r.next + n) r.limit
    base_le_next := by have := r.base_le_next; have := r.next_le_limit; omega
    next_le_limit := by omega }

/-- Moves the cursor to `base + pos`, to the end at most. -/
def moveTo (r : Region) (pos : Nat) : Region :=
  { r with
    next := min (r.base + pos) r.limit
    base_le_next := by have := r.base_le_next; have := r.next_le_limit; omega
    next_le_limit := by omega }

/-- As `bump`, for an amount that a caller chose freely. -/
def bump? (r : Region) (n : Nat) : Option Region :=
  if r.next + n ≤ maxWord then some (r.bump n) else none

/-- As `moveTo`, for a place that a caller chose freely. -/
def moveTo? (r : Region) (pos : Nat) : Option Region :=
  if r.base + pos ≤ maxWord then some (r.moveTo pos) else none

/-- One step back, unless the cursor is at the start. -/
def stepBack? (r : Region) : Option Region :=
  if h : r.base < r.next then
    some { r with
      next := r.next - 1
      base_le_next := by omega
      next_le_limit := by have := r.next_le_limit; omega }
  else none

def describe (r : Region) : String :=
  "CursorRegion \x7b base: " ++ toString r.base ++ ", next: " ++ toString r.next ++
    ", limit: " ++ toString r.limit ++ " \x7d"

theorem consumed_add_available (r : Region) : r.consumed + r.available = r.capacity := by
  have := r.base_le_next
  have := r.next_le_limit
  simp only [consumed, available, capacity]
  omega

@[simp]
theorem available_empty : empty.available = 0 := rfl

theorem eq_empty {r : Region} (hb : r.base = 0) (hl : r.limit = 0) : r = .empty := by
  have hn : r.next = 0 := Nat.le_zero.1 (hl ▸ r.next_le_limit)
  obtain ⟨base, next, limit, _, _⟩ := r
  obtain rfl : base = 0 := hb
  obtain rfl : next = 0 := hn
  obtain rfl : limit = 0 := hl
  rfl

@[simp]
theorem base_clamped (base next limit : Nat) : (clamped base next limit).base = base := rfl

theorem clamped_of_le {base next limit : Nat} (hb : base ≤ next) (hl : next ≤ limit) :
    clamped base next limit = ⟨base, next, limit, hb, hl⟩ := by
  simp only [clamped, mk.injEq, true_and]
  omega

@[simp]
theorem base_bump (r : Region) (n : Nat) : (r.bump n).base = r.base := rfl

@[simp]
theorem limit_bump (r : Region) (n : Nat) : (r.bump n).limit = r.limit := rfl

theorem next_bump (r : Region) (n : Nat) : (r.bump n).next = min (r.next + n) r.limit := rfl

theorem next_bump_of_le {r : Region} {n : Nat} (h : n ≤ r.available) :
    (r.bump n).next = r.next + n := by
  have := r.next_le_limit
  simp only [available] at h
  rw [next_bump]
  omega

@[simp]
theorem bump_zero (r : Region) : r.bump 0 = r := by
  simp only [bump, Nat.add_zero, Nat.min_eq_left r.next_le_limit]

/-- At its end the cursor stays. -/
theorem bump_of_available {r : Region} (h : r.available = 0) (n : Nat) : r.bump n = r := by
  have hle := r.next_le_limit
  have hnext : min (r.next + n) r.limit = r.next := by
    simp only [available] at h
    omega
  simp only [bump, hnext]

theorem next_moveTo (r : Region) (pos : Nat) : (r.moveTo pos).next = min (r.base + pos) r.limit :=
  rfl

theorem stepBack?_eq_none_iff (r : Region) : r.stepBack? = none ↔ r.consumed = 0 := by
  have := r.base_le_next
  simp only [stepBack?, consumed]
  split <;> simp <;> omega

@[simp]
theorem limit_clamped (next limit : Nat) : (clamped 0 next limit).limit = limit :=
  Nat.max_eq_left (Nat.zero_le _)

@[simp]
theorem next_clamped (next limit : Nat) : (clamped 0 next limit).next = min next limit := by
  simp [clamped]

@[simp]
theorem available_clamped (next limit : Nat) : (clamped 0 next limit).available = limit - next := by
  simp only [available, limit_clamped, next_clamped]
  omega

theorem isCollapsed_iff {r : Region} (hb : r.base = 0) : r.isCollapsed = true ↔ r.limit = 0 := by
  simp only [isCollapsed, beq_iff_eq]
  omega

theorem isCollapsed_of_available {r : Region} (h : 0 < r.available) : r.isCollapsed = false := by
  have := r.base_le_next
  simp only [available] at h
  simp only [isCollapsed, beq_eq_false_iff_ne]
  omega

theorem isCollapsed_of_consumed {r : Region} (h : 0 < r.consumed) : r.isCollapsed = false := by
  have := r.next_le_limit
  simp only [consumed] at h
  simp only [isCollapsed, beq_eq_false_iff_ne]
  omega

theorem consumed_of_isCollapsed {r : Region} (h : r.isCollapsed = true) : r.consumed = 0 := by
  by_cases hc : 0 < r.consumed
  · rw [isCollapsed_of_consumed hc] at h
    cases h
  · omega

theorem stepBack?_spec {r r' : Region} (h : r.stepBack? = some r') :
    r'.base = r.base ∧ r'.limit = r.limit ∧ r'.next + 1 = r.next := by
  unfold stepBack? at h
  split at h
  · cases h
    refine ⟨rfl, rfl, ?_⟩
    simp only
    omega
  · cases h

end Region

end ByteChannel
