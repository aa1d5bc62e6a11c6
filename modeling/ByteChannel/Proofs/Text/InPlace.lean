import Mathlib
import ByteChannel.Proofs.Device.Whole
import ByteChannel.Proofs.Ranges
import ByteChannel.Proofs.Text.Settled

/-!
# Collapsing in place

Text can be collapsed where it was laid: a scanner goes over the place, moves what follows a line
end one byte back, and reads on into what came free at the end. It ends because every step comes
further in the place. Here it is written with checked ranges, so it has a result only if it never
touches a byte outside the place. It always has one, and what it leaves in the place is what
`readCollapsed` delivers.
-/

namespace ByteChannel.Text

/-! ## The scanner -/

/-- A place that is being collapsed: the text stands before `stop`, and is final before `pos`. -/
structure Scan where
  place : Bytes
  pos : Nat
  stop : Nat
  /-- How many bytes behind `stop` came free. -/
  free : Nat
  atEnd : Bool
  error : Option IoError

def settleReturn? {σ : Type} [Device σ] (s : σ) : Option (UInt8 × σ) := do
  let (r, next, s) ← readInto? [0] 0 s
  if r.done = 1 then
    let b ← next[0]?
    if b = lf then return (lf, s)
    return (cr, (Device.seek s (.current (-1))).2)
  else return (cr, s)

namespace Scan

variable {σ : Type} [Device σ]

def refill? (t : Scan) (s : σ) : Option (Scan × σ) := do
  let target ← slice? t.place t.stop (t.stop + t.free)
  let (r, filled, s) ← readInto? target 0 s
  let place ← overwrite? t.place t.stop filled
  return ({ t with
    place := place
    stop := t.stop + r.done
    free := 0
    atEnd := r.error.isSome || r.done != t.free
    error := t.error.or r.error }, s)

/-- Goes over the carriage return at `pos`, which a byte follows. If that is a line feed, it moves
back over the carriage return, and all that follows with it. -/
def pass? (t : Scan) : Option Scan := do
  let next ← t.place[t.pos + 1]?
  if next = lf then
    let moved ← slice? t.place (t.pos + 1) t.stop
    let place ← overwrite? t.place t.pos moved
    return { t with place := place, pos := t.pos + 1, stop := t.stop - 1, free := t.free + 1 }
  else
    return { t with pos := t.pos + 1 }

/-- Decides by one byte of lookahead what the carriage return in the last place becomes. -/
def settle? (t : Scan) (s : σ) : Option (Scan × σ) := do
  let r ← settleReturn? s
  let place ← overwrite? t.place t.pos [r.1]
  return ({ t with place := place }, r.2)

/-- Looks for the next carriage return and goes over it, and tells whether there is more to do. -/
def step? (t : Scan) (s : σ) : Option (Bool × Scan × σ) :=
  if t.pos = t.stop then some (false, t, s)
  else do
    let text ← slice? t.place t.pos t.stop
    match text.idxOf? cr with
    | none =>
      if t.atEnd || t.free == 0 then return (false, t, s)
      let r ← t.refill? s
      if r.1.stop = t.stop then return (false, r)
      return (true, { r.1 with pos := t.stop }, r.2)
    | some i =>
      let t := { t with pos := t.pos + i }
      if t.pos + 1 = t.stop then
        if t.atEnd then return (false, t, s)
        if t.free = 0 then return (false, ← t.settle? s)
        let r ← t.refill? s
        if r.1.stop = t.stop then return (false, r)
        return (true, ← r.1.pass?, r.2)
      else return (true, ← t.pass?, s)

theorem refill?_spec {t t' : Scan} {s s' : σ} (h : t.refill? s = some (t', s')) :
    t'.pos = t.pos ∧ t'.place.length = t.place.length := by
  obtain ⟨target, -, h⟩ := Option.bind_eq_some_iff.1 h
  obtain ⟨r, -, h⟩ := Option.bind_eq_some_iff.1 h
  obtain ⟨place, hplace, h⟩ := Option.bind_eq_some_iff.1 h
  cases h
  exact ⟨rfl, length_of_overwrite? hplace⟩

theorem pass?_spec {t t' : Scan} (h : t.pass? = some t') :
    t'.pos = t.pos + 1 ∧ t'.place.length = t.place.length := by
  obtain ⟨next, -, h⟩ := Option.bind_eq_some_iff.1 h
  by_cases hnext : next = lf
  · rw [if_pos hnext] at h
    obtain ⟨moved, -, h⟩ := Option.bind_eq_some_iff.1 h
    obtain ⟨place, hplace, h⟩ := Option.bind_eq_some_iff.1 h
    cases h
    exact ⟨rfl, length_of_overwrite? hplace⟩
  · rw [if_neg hnext] at h
    cases h
    exact ⟨rfl, rfl⟩

/-- Every step that has more to do leaves less of the place behind the position. -/
theorem step?_lt {t t' : Scan} {s s' : σ} (h : t.step? s = some (true, t', s')) :
    t'.place.length - t'.pos < t.place.length - t.pos := by
  unfold step? at h
  by_cases hdone : t.pos = t.stop
  · rw [if_pos hdone] at h
    cases h
  rw [if_neg hdone] at h
  obtain ⟨text, htext, h⟩ := Option.bind_eq_some_iff.1 h
  obtain ⟨hle, hstop, hlength⟩ := bounds_of_slice? htext
  cases hi : text.idxOf? cr with
  | none =>
    rw [hi] at h
    dsimp only at h
    split at h
    · cases h
    obtain ⟨r, hr, h⟩ := Option.bind_eq_some_iff.1 h
    obtain ⟨-, hplace⟩ := refill?_spec hr
    split at h
    · cases h
    · cases h
      dsimp only
      omega
  | some i =>
    rw [hi] at h
    dsimp only at h
    split at h
    · split at h
      · cases h
      split at h
      · obtain ⟨r, -, h⟩ := Option.bind_eq_some_iff.1 h
        cases h
      obtain ⟨r, hr, h⟩ := Option.bind_eq_some_iff.1 h
      obtain ⟨hpos, hplace⟩ := refill?_spec hr
      split at h
      · cases h
      obtain ⟨t₁, ht₁, h⟩ := Option.bind_eq_some_iff.1 h
      obtain ⟨hnext, hsame⟩ := pass?_spec ht₁
      cases h
      dsimp only at hpos hplace hnext hsame ⊢
      omega
    · obtain ⟨t₁, ht₁, h⟩ := Option.bind_eq_some_iff.1 h
      obtain ⟨hnext, hsame⟩ := pass?_spec ht₁
      cases h
      dsimp only at hnext hsame ⊢
      omega

def run? (t : Scan) (s : σ) : Option (Scan × σ) :=
  match _h : t.step? s with
  | none => none
  | some (false, r) => some r
  | some (true, r) => run? r.1 r.2
termination_by t.place.length - t.pos
decreasing_by exact step?_lt _h

theorem run?_eq_bind (t : Scan) (s : σ) :
    t.run? s = (t.step? s).bind fun r => if r.1 then run? r.2.1 r.2.2 else some r.2 := by
  rw [run?]
  split
  · next h => rw [h]; rfl
  · next r h => rw [h]; rfl
  · next r h => rw [h]; rfl

def fill? (place : Bytes) (s : σ) : Option (Transfer × Bytes × σ) := do
  let (r, filled, s) ← readInto? place 0 s
  let (t, s) ← run? ⟨filled, 0, r.done, 0, r.error.isSome || r.done != place.length, r.error⟩ s
  return (⟨t.stop, t.error⟩, t.place, s)

end Scan

/-! ## One carriage return after the other -/

section

variable {σ : Type} [Device σ] {s : σ} {atEnd : Bool} {error : Option IoError}

def keepAll (front : Bytes) (r : Intake × σ) : Intake × σ := (⟨front ++ r.1.bytes, r.1.error⟩, r.2)

theorem collapseRest_cons_cons (b a : UInt8) (more : Bytes) (room : Nat) :
    collapseRest s atEnd error (b :: a :: more) room =
      if b = cr ∧ a = lf then keep lf (collapseRest s atEnd error more (room + 1))
      else keep b (collapseRest s atEnd error (a :: more) room) := by
  rw [collapseRest]

theorem collapseRest_append {front rest : Bytes} (hfront : cr ∉ front) (hrest : rest ≠ [])
    (room : Nat) :
    collapseRest s atEnd error (front ++ rest) room =
      keepAll front (collapseRest s atEnd error rest room) := by
  induction front with
  | nil => rfl
  | cons b front ih =>
    have hback : front ++ rest ≠ [] := List.append_ne_nil_of_right_ne_nil front hrest
    obtain ⟨a, more, hmore⟩ := List.exists_cons_of_ne_nil hback
    have hne : ¬ (b = cr ∧ a = lf) := fun h => hfront (h.1 ▸ List.mem_cons_self)
    rw [List.cons_append, hmore, collapseRest_cons_cons, if_neg hne, ← hmore,
      ih (fun hc => hfront (List.mem_cons_of_mem b hc))]
    rfl

theorem collapseRest_of_notMem {rest : Bytes} (hrest : cr ∉ rest) {room : Nat}
    (h : atEnd = true ∨ room = 0) :
    collapseRest s atEnd error rest room = (⟨rest, error⟩, s) := by
  rcases List.eq_nil_or_concat rest with rfl | ⟨front, b, rfl⟩
  · rw [collapseRest]
  · rw [List.concat_eq_append] at hrest ⊢
    obtain ⟨hfront, hb⟩ := not_or.1 (fun hc => hrest (List.mem_append.2 hc))
    have hbcr : b ≠ cr := fun he => hb (he ▸ List.mem_singleton_self b)
    rw [collapseRest_append hfront (List.cons_ne_nil b []), collapseRest]
    rcases h with rfl | rfl
    · rfl
    · simp only [if_neg hbcr, if_true, ite_self]
      rfl

/-- The last byte waits for what the free places take in. -/
theorem collapseRest_refill (b : UInt8) {room : Nat} (hroom : room ≠ 0) :
    collapseRest s false error [b] room =
      let r := readFully s room
      if r.1.bytes = [] then (⟨[b], error.or r.1.error⟩, r.2)
      else collapseRest r.2 (r.1.error.isSome || r.1.bytes.length != room)
        (error.or r.1.error) (b :: r.1.bytes) 0 := by
  rw [collapseRest]
  simp only [Bool.false_eq_true, if_false, if_neg hroom]
  split
  · next h => simp [h]
  · next a more h => simp [h, collapseRest_cons_cons]

/-- Without a carriage return, what is there stays, and what comes is collapsed by itself. -/
theorem collapseRest_refill_of_notMem {rest : Bytes} (hrest : cr ∉ rest) (hne : rest ≠ [])
    {room : Nat} (hroom : room ≠ 0) :
    collapseRest s false error rest room =
      let r := readFully s room
      if r.1.bytes = [] then (⟨rest, error.or r.1.error⟩, r.2)
      else keepAll rest (collapseRest r.2 (r.1.error.isSome || r.1.bytes.length != room)
        (error.or r.1.error) r.1.bytes 0) := by
  obtain ⟨front, b, rfl⟩ := (List.eq_nil_or_concat rest).resolve_left hne
  rw [List.concat_eq_append] at hrest ⊢
  have hfront : cr ∉ front := fun hc => hrest (List.mem_append_left [b] hc)
  rw [collapseRest_append hfront (List.cons_ne_nil b []), collapseRest_refill b hroom]
  dsimp only
  split
  · rfl
  · next hb =>
    rw [← collapseRest_append hrest hb, List.append_assoc, List.singleton_append,
      collapseRest_append hfront (List.cons_ne_nil b _)]

end

/-! ## Turns of the scanner -/

namespace Scan

variable {σ : Type} {t : Scan} {front rest : Bytes}

/-- The final text, then what is still to be collapsed. -/
structure Holds (t : Scan) (front rest : Bytes) : Prop where
  place : ∃ behind, t.place = front ++ rest ++ behind ∧ t.free ≤ behind.length
  pos : t.pos = front.length
  stop : t.stop = front.length + rest.length

theorem Holds.slice? (h : t.Holds front rest) : slice? t.place t.pos t.stop = some rest := by
  obtain ⟨behind, hp, -⟩ := h.place
  apply slice?_middle hp h.pos
  rw [h.stop, h.pos]

theorem Holds.skip {clean : Bytes} (h : t.Holds front (clean ++ rest)) :
    Holds { t with pos := t.pos + clean.length } (front ++ clean) rest := by
  obtain ⟨behind, hp, hfree⟩ := h.place
  refine ⟨⟨behind, ?_, hfree⟩, ?_, ?_⟩
  · rw [hp, List.append_assoc front clean rest]
  · rw [List.length_append, h.pos]
  · rw [h.stop, List.length_append, List.length_append, Nat.add_assoc]

theorem Holds.pass_pair {more : Bytes} (h : t.Holds front (cr :: lf :: more)) :
    ∃ t', t.pass? = some t' ∧ t'.Holds (front ++ [lf]) more ∧ t'.free = t.free + 1 ∧
      t'.atEnd = t.atEnd ∧ t'.error = t.error ∧ t'.place.length = t.place.length := by
  obtain ⟨behind, hp, hfree⟩ := h.place
  have hsplit : t.place = front ++ [cr] ++ (lf :: more) ++ behind := by simp [hp]
  have hstart : t.pos + 1 = (front ++ [cr]).length := by
    rw [h.pos, List.length_append, List.length_singleton]
  have hstop : t.stop = t.pos + 1 + (lf :: more).length := by
    simp only [h.stop, h.pos, List.length_cons]
    omega
  have hnext : t.place[t.pos + 1]? = some lf := by
    rw [hsplit, hstart, List.append_assoc, List.getElem?_append_right (Nat.le_refl _)]
    simp
  have hslice := slice?_middle hsplit hstart hstop
  obtain ⟨behind', hover, hlen, -⟩ :=
    overwrite?_middle (lf :: more) hp h.pos (Nat.le_add_right _ 1)
  have hr : t.pass? = some { t with
      place := front ++ lf :: more ++ behind'
      pos := t.pos + 1
      stop := t.stop - 1
      free := t.free + 1 } := by
    simp only [pass?, hnext, Option.bind_eq_bind, Option.bind_some, if_true, hslice, hover]
    rfl
  have htotal := congrArg List.length hp
  simp only [List.length_append, List.length_cons] at htotal hlen
  refine ⟨_, hr, ⟨⟨behind', ?_, ?_⟩, ?_, ?_⟩, rfl, rfl, rfl, ?_⟩
  · simp
  · dsimp only
    omega
  · simp [h.pos]
  · simp only [h.stop, List.length_append, List.length_cons, List.length_nil]
    omega
  · simp only [List.length_append, List.length_cons]
    omega

theorem Holds.pass_return {a : UInt8} {more : Bytes} (h : t.Holds front (cr :: a :: more))
    (ha : a ≠ lf) :
    ∃ t', t.pass? = some t' ∧ t'.Holds (front ++ [cr]) (a :: more) ∧ t'.free = t.free ∧
      t'.atEnd = t.atEnd ∧ t'.error = t.error ∧ t'.place = t.place := by
  obtain ⟨behind, hp, hfree⟩ := h.place
  have hnext : t.place[t.pos + 1]? = some a := by
    rw [hp, h.pos, List.append_assoc, List.getElem?_append_right (Nat.le_add_right _ _)]
    simp
  have hskip : Holds { t with pos := t.pos + 1 } (front ++ [cr]) (a :: more) :=
    Holds.skip (show t.Holds front ([cr] ++ a :: more) from h)
  refine ⟨{ t with pos := t.pos + 1 }, ?_, hskip, rfl, rfl, rfl, rfl⟩
  simp [pass?, hnext, ha]

/-- A run that ends, and leaves in a place of `n` bytes `front` and then what was taken in. -/
def Ends (run : Option (Scan × σ)) (n : Nat) (front : Bytes) (r : Intake × σ) : Prop :=
  ∃ t, run = some (t, r.2) ∧ front ++ r.1.bytes <+: t.place ∧ t.place.length = n ∧
    t.stop = (front ++ r.1.bytes).length ∧ t.error = r.1.error

theorem Holds.ends (h : t.Holds front rest) (s : σ) :
    Ends (some (t, s)) t.place.length front (⟨rest, t.error⟩, s) := by
  obtain ⟨behind, hp, -⟩ := h.place
  refine ⟨t, rfl, ⟨behind, hp.symm⟩, rfl, ?_, rfl⟩
  rw [h.stop, List.length_append]

theorem Ends.keep {run : Option (Scan × σ)} {n : Nat} {b : UInt8} {r : Intake × σ}
    (h : Ends run n (front ++ [b]) r) : Ends run n front (keep b r) := by
  simpa [Ends, Text.keep, List.append_assoc] using h

theorem Ends.keepAll {run : Option (Scan × σ)} {n : Nat} {clean : Bytes} {r : Intake × σ}
    (h : Ends run n (front ++ clean) r) : Ends run n front (keepAll clean r) := by
  simpa [Ends, Text.keepAll, List.append_assoc] using h

/-! ## Turns that take input -/

variable [Device σ]

theorem Holds.refill (h : t.Holds front rest) (s : σ) :
    ∃ t', t.refill? s = some (t', (readFully s t.free).2) ∧
      t'.Holds front (rest ++ (readFully s t.free).1.bytes) ∧ t'.free = 0 ∧
      t'.atEnd = ((readFully s t.free).1.error.isSome ||
        (readFully s t.free).1.bytes.length != t.free) ∧
      t'.error = t.error.or (readFully s t.free).1.error ∧
      t'.place.length = t.place.length := by
  obtain ⟨behind, hp, hfree⟩ := h.place
  have hstop : t.stop = (front ++ rest).length := by rw [h.stop, List.length_append]
  have htake : (behind.take t.free).length = t.free := List.length_take_of_le hfree
  have hsplit : t.place = front ++ rest ++ behind.take t.free ++ behind.drop t.free := by
    rw [hp, List.append_assoc _ (behind.take t.free), List.take_append_drop]
  have hslice := slice?_middle hsplit hstop (by rw [htake])
  have hread := readInto?_eq (behind.take t.free) s
  have hle := length_bytes_readFully_le s t.free
  rw [htake] at hread
  dsimp only at hread
  -- the place that came free keeps its length, whatever was read into it
  have hfilled : ((readFully s t.free).1.bytes ++
      (behind.take t.free).drop (readFully s t.free).1.bytes.length).length ≤
        (behind.take t.free).length := by
    rw [List.length_append, List.length_drop, htake]
    omega
  obtain ⟨behind', hover, hlen, -⟩ := overwrite?_middle _ hsplit hstop hfilled
  have hr : t.refill? s = some ({ t with
      place := front ++ rest ++ ((readFully s t.free).1.bytes ++
        (behind.take t.free).drop (readFully s t.free).1.bytes.length) ++ behind'
      stop := t.stop + (readFully s t.free).1.bytes.length
      free := 0
      atEnd := (readFully s t.free).1.error.isSome ||
        (readFully s t.free).1.bytes.length != t.free
      error := t.error.or (readFully s t.free).1.error }, (readFully s t.free).2) := by
    simp only [refill?, hslice, hread, Option.bind_eq_bind, Option.bind_some, hover]
    rfl
  refine ⟨_, hr, ⟨⟨(behind.take t.free).drop (readFully s t.free).1.bytes.length ++ behind', ?_,
    Nat.zero_le _⟩, h.pos, ?_⟩, rfl, rfl, rfl, ?_⟩
  · simp only [List.append_assoc]
  · simp only [h.stop, List.length_append, Nat.add_assoc]
  · simp only [List.length_append] at hlen ⊢
    exact hlen

theorem settleReturn?_eq (s : σ) : settleReturn? s = some (settleReturn s) := by
  have hread := readInto?_eq [0] s
  have hle := length_bytes_readFully_le s 1
  rw [List.length_singleton] at hread
  unfold settleReturn? settleReturn
  rw [hread]
  dsimp only
  cases hb : (readFully s 1).1.bytes with
  | nil => rfl
  | cons b more =>
    obtain rfl : more = [] := by simpa [hb] using hle
    by_cases hlf : b = lf
    · subst hlf
      rfl
    · simp [hlf]

theorem Holds.settle (h : t.Holds front [cr]) (s : σ) :
    Ends (t.settle? s) t.place.length front
      (⟨[(settleReturn s).1], t.error⟩, (settleReturn s).2) := by
  obtain ⟨behind, hp, -⟩ := h.place
  obtain ⟨behind', hover, hlen, -⟩ :=
    overwrite?_middle [(settleReturn s).1] hp h.pos (Nat.le_refl 1)
  have hr : t.settle? s = some ({ t with place := front ++ [(settleReturn s).1] ++ behind' },
      (settleReturn s).2) := by
    simp only [settle?, settleReturn?_eq, hover, Option.bind_eq_bind, Option.bind_some]
    rfl
  refine ⟨_, hr, ⟨behind', rfl⟩, ?_, ?_, rfl⟩
  · simp only [List.length_append] at hlen ⊢
    exact hlen
  · simp [h.stop]

/-! ## Whole runs -/

def Collapses (t : Scan) (s : σ) (front rest : Bytes) : Prop :=
  Ends (t.run? s) t.place.length front (collapseRest s t.atEnd t.error rest t.free)

/-- So do all runs that have less than `k` bytes to go over. -/
def CollapsesBelow (σ : Type) [Device σ] (k : Nat) : Prop :=
  ∀ {t : Scan} {front rest : Bytes} (s : σ), t.Holds front rest → rest.length + t.free < k →
    t.Collapses s front rest

theorem Holds.pass {a : UInt8} {more : Bytes} (h : t.Holds front (cr :: a :: more)) (s : σ)
    (ih : CollapsesBelow σ ((cr :: a :: more).length + t.free)) :
    Ends (t.pass?.bind (run? · s)) t.place.length front
      (collapseRest s t.atEnd t.error (cr :: a :: more) t.free) := by
  rw [collapseRest_cons_cons]
  by_cases ha : a = lf
  · subst ha
    obtain ⟨t', hr, ht', hfree, hend, herror, hlen⟩ := h.pass_pair
    have hless : more.length + t'.free < (cr :: lf :: more).length + t.free := by
      simp only [List.length_cons]
      omega
    have hi := ih s ht' hless
    rw [Collapses, hfree, hend, herror, hlen] at hi
    rw [hr, Option.bind_some, if_pos ⟨rfl, rfl⟩]
    exact hi.keep
  · obtain ⟨t', hr, ht', hfree, hend, herror, hplace⟩ := h.pass_return ha
    have hless : (a :: more).length + t'.free < (cr :: a :: more).length + t.free := by
      simp only [List.length_cons]
      omega
    have hi := ih s ht' hless
    rw [Collapses, hfree, hend, herror, hplace] at hi
    rw [hr, Option.bind_some, if_neg (fun hc => ha hc.2)]
    exact hi.keep

theorem Holds.run?_eq (h : t.Holds front rest) (hrest : rest ≠ []) (s : σ) :
    t.run? s =
      match rest.idxOf? cr with
      | none =>
        if t.atEnd || t.free == 0 then some (t, s)
        else (t.refill? s).bind fun r =>
          if r.1.stop = t.stop then some r else run? { r.1 with pos := t.stop } r.2
      | some i =>
        if t.pos + i + 1 = t.stop then
          if t.atEnd then some ({ t with pos := t.pos + i }, s)
          else if t.free = 0 then settle? { t with pos := t.pos + i } s
          else (refill? { t with pos := t.pos + i } s).bind fun r =>
            if r.1.stop = t.stop then some r else r.1.pass?.bind (run? · r.2)
        else (pass? { t with pos := t.pos + i }).bind (run? · s) := by
  have hmore : t.pos ≠ t.stop := by
    have := List.length_pos_iff.2 hrest
    rw [h.pos, h.stop]
    omega
  rw [run?_eq_bind, step?, if_neg hmore, h.slice?]
  simp only [Option.bind_eq_bind, Option.bind_some, Option.pure_def]
  cases rest.idxOf? cr with
  | none =>
    dsimp only
    by_cases hstay : (t.atEnd || t.free == 0) = true
    · rw [if_pos hstay, if_pos hstay]
      rfl
    rw [if_neg hstay, if_neg hstay, Option.bind_assoc]
    congr 1
    funext r
    split <;> rfl
  | some i =>
    dsimp only
    by_cases hlast : t.pos + i + 1 = t.stop
    · rw [if_pos hlast, if_pos hlast]
      by_cases hend : t.atEnd = true
      · rw [if_pos hend, if_pos hend]
        rfl
      rw [if_neg hend, if_neg hend]
      by_cases hfree : t.free = 0
      · rw [if_pos hfree, if_pos hfree, Option.bind_assoc]
        exact Option.bind_fun_some _
      rw [if_neg hfree, if_neg hfree, Option.bind_assoc]
      congr 1
      funext r
      split
      · rfl
      · exact Option.bind_assoc _ _ _
    · rw [if_neg hlast, if_neg hlast, Option.bind_assoc]
      rfl

/-- No carriage return is left: only what comes free brings new ones. -/
theorem Holds.run_clean (h : t.Holds front rest) (hcr : cr ∉ rest) (hrest : rest ≠ []) (s : σ)
    (ih : CollapsesBelow σ (rest.length + t.free)) : t.Collapses s front rest := by
  rw [Collapses, h.run?_eq hrest, List.idxOf?_eq_none_iff.2 hcr]
  dsimp only
  by_cases hstay : t.atEnd = true ∨ t.free = 0
  · rw [if_pos (by simpa using hstay), collapseRest_of_notMem hcr hstay]
    exact h.ends s
  have hend : t.atEnd = false := by simpa using fun he => hstay (.inl he)
  have hfree : t.free ≠ 0 := fun hf => hstay (.inr hf)
  obtain ⟨t', hr, ht', hfree', hend', herror', hlen⟩ := h.refill s
  rw [if_neg (by simpa using hstay), hr, Option.bind_some, hend,
    collapseRest_refill_of_notMem hcr hrest hfree, ← hlen]
  dsimp only
  rw [← herror', ← hend']
  by_cases hb : (readFully s t.free).1.bytes = []
  · rw [hb, List.append_nil] at ht'
    rw [if_pos (by rw [ht'.stop, h.stop]), if_pos hb]
    exact ht'.ends _
  have hstop : t'.stop ≠ t.stop := by
    have := List.length_pos_iff.2 hb
    rw [ht'.stop, h.stop, List.length_append]
    omega
  rw [if_neg hstop, if_neg hb]
  apply Ends.keepAll
  have hold : t.stop = t'.pos + rest.length := by rw [ht'.pos, h.stop]
  have hless : (readFully s t.free).1.bytes.length + t'.free < rest.length + t.free := by
    have := length_bytes_readFully_le s t.free
    have := List.length_pos_iff.2 hrest
    omega
  have hi := ih (readFully s t.free).2 ht'.skip hless
  rw [Collapses, ← hold] at hi
  dsimp only at hi
  rw [hfree'] at hi ⊢
  exact hi

/-- A carriage return in the last place waits for what comes free, or for one byte of lookahead. -/
theorem Holds.run_last {clean : Bytes} (h : t.Holds front (clean ++ [cr])) (hclean : cr ∉ clean)
    (s : σ) (ih : CollapsesBelow σ ((clean ++ [cr]).length + t.free)) :
    t.Collapses s front (clean ++ [cr]) := by
  have hskip := h.skip
  have hlast : t.pos + clean.length + 1 = t.stop := by
    rw [h.pos, h.stop, List.length_append, List.length_singleton, Nat.add_assoc]
  rw [Collapses, h.run?_eq (List.append_ne_nil_of_right_ne_nil _ (List.cons_ne_nil cr [])),
    idxOf?_append_cons hclean, collapseRest_append hclean (List.cons_ne_nil _ _)]
  apply Ends.keepAll
  dsimp only
  rw [if_pos hlast]
  by_cases hend : t.atEnd = true
  · rw [if_pos hend, collapseRest, if_pos hend]
    exact hskip.ends s
  rw [if_neg hend]
  by_cases hfree : t.free = 0
  · rw [if_pos hfree, collapseRest, if_neg hend, if_pos hfree, if_pos rfl]
    exact hskip.settle s
  obtain ⟨t', hr, ht', hfree', hend', herror', hlen⟩ := hskip.refill s
  have hend : t.atEnd = false := by simpa using hend
  rw [if_neg hfree, hr, Option.bind_some, hend, collapseRest_refill cr hfree]
  dsimp only at hr ht' herror' hend' hlen ⊢
  rw [← herror', ← hend', ← hlen]
  by_cases hb : (readFully s t.free).1.bytes = []
  · rw [hb, List.append_nil] at ht'
    rw [if_pos (by rw [ht'.stop, ← hlast, h.pos, List.length_append, List.length_singleton]),
      if_pos hb]
    exact ht'.ends _
  have hl := length_bytes_readFully_le s t.free
  obtain ⟨a, more, hmore⟩ := List.exists_cons_of_ne_nil hb
  rw [hmore] at ht' hl ⊢
  have hstop : t'.stop ≠ t.stop := by
    simp only [ht'.stop, h.stop, List.length_append, List.length_cons]
    omega
  rw [if_neg hstop, if_neg (List.cons_ne_nil a more), ← hfree']
  apply ht'.pass
  intro t'' front' rest' s' ht'' hless
  apply ih s' ht''
  simp only [List.length_cons, List.length_append, List.length_nil] at hl hless ⊢
  omega

theorem Holds.run_inner {clean more : Bytes} {a : UInt8}
    (h : t.Holds front (clean ++ cr :: a :: more)) (hclean : cr ∉ clean) (s : σ)
    (ih : CollapsesBelow σ ((clean ++ cr :: a :: more).length + t.free)) :
    t.Collapses s front (clean ++ cr :: a :: more) := by
  have hlast : t.pos + clean.length + 1 ≠ t.stop := by
    simp only [h.pos, h.stop, List.length_append, List.length_cons]
    omega
  rw [Collapses, h.run?_eq (List.append_ne_nil_of_right_ne_nil _ (List.cons_ne_nil cr _)),
    idxOf?_append_cons hclean, collapseRest_append hclean (List.cons_ne_nil _ _)]
  apply Ends.keepAll
  dsimp only
  rw [if_neg hlast]
  apply h.skip.pass s
  intro t' front' rest' s' ht' hless
  apply ih s' ht'
  rw [List.length_append]
  exact Nat.lt_of_lt_of_le hless (by dsimp only; omega)

/-- The scanner ends, stays inside its place, and leaves there what collapsing the rest delivers. -/
theorem Holds.run (h : t.Holds front rest) (s : σ) : t.Collapses s front rest := by
  induction hk : rest.length + t.free using Nat.strongRecOn generalizing t s front rest with
  | ind k ih =>
    subst hk
    have ih : CollapsesBelow σ (rest.length + t.free) := fun s' ht' hless => ih _ hless ht' s' rfl
    by_cases hrest : rest = []
    · subst hrest
      have hdone : t.pos = t.stop := by rw [h.pos, h.stop, List.length_nil, Nat.add_zero]
      rw [Collapses, run?_eq_bind, step?, if_pos hdone, collapseRest]
      exact h.ends s
    by_cases hcr : cr ∈ rest
    · obtain ⟨clean, more, rfl, hclean⟩ := List.eq_append_cons_of_mem hcr
      cases more with
      | nil => exact h.run_last hclean s ih
      | cons a more => exact h.run_inner hclean s ih
    · exact h.run_clean hcr hrest s ih

/-- Filling a place never leaves it, ends, and delivers what `readCollapsed` does. -/
theorem fill?_eq (place : Bytes) (s : σ) :
    ∃ place', fill? place s =
        some (⟨(readCollapsed s place.length).1.bytes.length,
          (readCollapsed s place.length).1.error⟩, place', (readCollapsed s place.length).2) ∧
      (readCollapsed s place.length).1.bytes <+: place' ∧ place'.length = place.length := by
  have hread := readInto?_eq place s
  have hle := length_bytes_readFully_le s place.length
  dsimp only at hread
  have hstart : Holds ⟨(readFully s place.length).1.bytes ++
        place.drop (readFully s place.length).1.bytes.length, 0,
      (readFully s place.length).1.bytes.length, 0, (readFully s place.length).1.error.isSome ||
        (readFully s place.length).1.bytes.length != place.length,
      (readFully s place.length).1.error⟩ [] (readFully s place.length).1.bytes :=
    ⟨⟨_, rfl, Nat.zero_le _⟩, rfl, (Nat.zero_add _).symm⟩
  obtain ⟨t, hrun, hpre, hlength, hstop, herror⟩ := hstart.run (readFully s place.length).2
  refine ⟨t.place, ?_, hpre, ?_⟩
  · simp only [fill?, hread, Option.bind_eq_bind, Option.bind_some, hrun, hstop, herror]
    rfl
  · rw [hlength]
    dsimp only
    rw [List.length_append, List.length_drop]
    omega

/-! ## Stretches of a file -/

theorem collapse_concat {b : UInt8} (hb : b ≠ lf) (front : Bytes) :
    collapse (front ++ [b]) = collapse front ++ [b] := by
  have hw : Whole front [b] := (whole_iff _ _).2 fun h => hb (by simpa using h.2)
  rw [hw, collapse_singleton]

theorem slice_stretch (f : File) (k : Nat) : slice f.bytes f.pos (f.pos + k) = f.rest.take k := by
  rw [slice, Nat.add_sub_cancel_left, File.rest]

theorem getLast?_take_rest {f : File} {k : Nat} (hk : 0 < k) (hlen : f.pos + k ≤ f.bytes.length) :
    (f.rest.take k).getLast? = f.bytes[f.pos + k - 1]? := by
  have hrest := f.length_rest
  have hmin : min k f.rest.length - 1 = k - 1 := by omega
  rw [List.getLast?_eq_getElem?, List.length_take, hmin, List.getElem?_take_of_lt (by omega),
    File.rest, List.getElem?_drop, Nat.add_sub_assoc hk]

/-- Over a device that shows a file, a place of any size is filled with what a stretch of the file
collapses to. The device is left at the end of the stretch, which no line end reaches over. -/
theorem fills_with_whole_stretch [Reliable σ] {s : σ} {f : File} (hs : Reliable.Shows s f)
    (hlen : f.bytes.length ≤ Reliable.top σ) (place : Bytes) :
    ∃ q text place' s',
      fill? place s = some (⟨text.length, none⟩, place', s') ∧
      text <+: place' ∧ place'.length = place.length ∧
      readCollapsed s place.length = (⟨text, none⟩, s') ∧
      Reliable.Shows s' { f with pos := q } ∧ f.pos ≤ q ∧ q ≤ max f.pos f.bytes.length ∧
      text = collapse (slice f.bytes f.pos q) ∧
      collapse (f.bytes.drop f.pos) = text ++ collapse (f.bytes.drop q) ∧
      (q = f.pos ∨ ¬ (f.bytes[q - 1]? = some cr ∧ f.bytes[q]? = some lf)) ∧
      (place ≠ [] → f.pos < f.bytes.length → text ≠ []) ∧
      (f.bytes.getLast? = some cr → f.pos < q → q = f.bytes.length →
        text = collapse (slice f.bytes f.pos (q - 1)) ++ [cr]) := by
  obtain ⟨place', hfill, hpre, hplace⟩ := fill?_eq place s
  obtain ⟨k, hk, hr, hw, hs', -⟩ := readCollapsed_settled hs hlen place.length
  rw [List.nil_append] at hr hw
  have hdrop : f.bytes.drop (f.pos + k) = f.rest.drop k := by rw [File.rest, List.drop_drop]
  rw [hr] at hfill hpre
  rw [File.length_rest] at hk
  refine ⟨f.pos + k, collapse (f.rest.take k), place', (readCollapsed s place.length).2, hfill,
    hpre, hplace, Prod.ext hr rfl, hs', Nat.le_add_right _ _, by omega, by rw [slice_stretch],
    ?_, ?_, ?_, ?_⟩
  · rw [hdrop, ← hw, List.take_append_drop, File.rest]
  · refine (Nat.eq_zero_or_pos k).imp (fun h => by rw [h, Nat.add_zero]) (fun hpos hparted => ?_)
    have hq : f.pos + k ≤ f.bytes.length := by omega
    rw [← getLast?_take_rest hpos hq, ← List.head?_drop, hdrop] at hparted
    exact (whole_iff _ _).1 hw hparted
  · intro hne hmore htext
    have hempty : (readCollapsed s place.length).1.bytes = [] := by rw [hr, htext]
    have hrest := rest_eq_nil_of_readCollapsed hs (by simpa using hne) hempty
    have := f.length_rest
    rw [hrest, List.length_nil] at this
    omega
  · intro hlast hpos hend
    have hk₀ : 0 < k := by omega
    rw [List.getLast?_eq_getElem?, ← hend, ← getLast?_take_rest hk₀ (Nat.le_of_eq hend)] at hlast
    obtain ⟨front, hfront⟩ := List.getLast?_eq_some_iff.1 hlast
    have hinit : f.rest.take (k - 1) = front := by
      have hl : front.length = k - 1 := by
        have := congrArg List.length hfront
        rw [List.length_take_of_le (by have := f.length_rest; omega), List.length_append,
          List.length_singleton] at this
        omega
      rw [← Nat.min_eq_left (Nat.sub_le k 1), ← List.take_take, hfront, List.take_left' hl]
    rw [Nat.add_sub_assoc hk₀, slice_stretch, hinit, hfront]
    exact collapse_concat (by decide) front

/-- The last place is filled by a lookahead that meets a line feed. -/
theorem fills_with_whole_stretch_interrupted :
    let raw : Bytes := [97, 13, 10, 13, 13, 10, 98, 13]
    let d : Faulty := { cursor := .ofBytes raw 0, readChunk := some 1, interruptPeriod := 2 }
    Reliable.Shows d ⟨raw, 0⟩ ∧ raw.length ≤ Reliable.top Faulty ∧
      ∃ s', fill? [0, 0, 0, 0] d = some (⟨4, none⟩, [97, 10, 13, 10], s') ∧
        Reliable.Shows s' ⟨raw, 6⟩ ∧ collapse raw = [97, 10, 13, 10] ++ collapse [98, 13] := by
  intro raw d
  have hs : Reliable.Shows d ⟨raw, 0⟩ := ⟨⟨by decide, by decide, rfl, rfl, rfl, rfl⟩, by cbv⟩
  have hlen : raw.length ≤ Reliable.top Faulty := by decide
  obtain ⟨q, text, place', s', hfill, hpre, hplace, hr, hs', -, -, -, hcut, -⟩ :=
    fills_with_whole_stretch hs hlen [0, 0, 0, 0]
  have hread : (readCollapsed d 4).1 = ⟨[97, 10, 13, 10], none⟩ ∧
      (readCollapsed d 4).2.cursor.pos = 6 := by
    unfold d raw
    exact ⟨by cbv, by cbv⟩
  obtain ⟨htext, hpos⟩ := hread
  rw [show readCollapsed d 4 = _ from hr] at htext hpos
  obtain rfl : text = [97, 10, 13, 10] := congrArg Intake.bytes htext
  obtain rfl : q = 6 := (congrArg File.pos hs'.2).symm.trans hpos
  have hfull : place' = [97, 10, 13, 10] := (hpre.eq_of_length hplace.symm).symm
  rw [hfull] at hfill
  exact ⟨hs, hlen, s', hfill, hs', hcut⟩

end Scan

end ByteChannel.Text
