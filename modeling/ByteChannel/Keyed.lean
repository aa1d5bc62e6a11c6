/-!
# Lists of keyed values

A short list of values by key, read with `List.lookup`. Putting a value replaces the one
under its key, or adds it at the end.
-/

namespace ByteChannel.Keyed

variable {κ α : Type} [BEq κ] [LawfulBEq κ]

def put (key : κ) (value : α) : List (κ × α) → List (κ × α)
  | [] => [(key, value)]
  | (k, old) :: rest => if k == key then (k, value) :: rest else (k, old) :: put key value rest

theorem lookup_put_self (key : κ) (value : α) (xs : List (κ × α)) :
    (put key value xs).lookup key = some value := by
  induction xs with
  | nil => simp [put]
  | cons x xs ih =>
    obtain ⟨k, old⟩ := x
    by_cases h : k == key
    · simp [put, eq_of_beq h]
    · have hb : (key == k) = false := by
        apply beq_false_of_ne
        intro he
        simp [he] at h
      simp [put, h, List.lookup_cons, hb, ih]

theorem lookup_put_of_ne {key other : κ} (value : α) (h : other ≠ key) (xs : List (κ × α)) :
    (put key value xs).lookup other = xs.lookup other := by
  induction xs with
  | nil => simp [put, List.lookup_cons, beq_false_of_ne h]
  | cons x xs ih =>
    obtain ⟨k, old⟩ := x
    by_cases hk : k == key
    · have hb : (other == k) = false := beq_false_of_ne (eq_of_beq hk ▸ h)
      simp [put, hk, List.lookup_cons, hb]
    · simp [put, hk, List.lookup_cons, ih]

end ByteChannel.Keyed
