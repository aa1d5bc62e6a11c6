import Mathlib
import ByteChannel.Proofs.Device.Reliable
import ByteChannel.Proofs.Ranges
import ByteChannel.Transfer

/-!
# Whole transfers, call by call

A whole transfer is a series of calls, each of which asks for all that is still missing. It goes on
while a call moves something or is interrupted, and ends when nothing is missing, with the first
call that moves nothing, or with the first failure of another kind. The answers tell all of it: what
was asked, what was moved, why it ended. Where no call fails, not even the answers matter. A whole
transfer is then what the device has to give or is given, however it was cut and interrupted.
-/

namespace ByteChannel

/-! ## Transfers in parts -/

/-- How a device of state `σ` is asked for some `ι` and answers with a part `α` of it. -/
structure Piecewise (σ ι α : Type) where
  ask : σ → ι → Except IoError α × σ
  wanted : ι → Nat
  size : α → Nat
  /-- What is still wanted behind a part. -/
  behind : ι → α → ι
  /-- What a transfer reports that ends because a part is empty. -/
  nothing : Option IoError
  wanted_behind : ∀ i a, wanted (behind i a) = wanted i - size a

def parts {α : Type} (answers : List (Except IoError α)) : List α :=
  answers.filterMap Except.toOption

section

variable {α : Type}

@[simp]
theorem parts_nil : parts ([] : List (Except IoError α)) = [] := rfl

@[simp]
theorem parts_ok (a : α) (answers : List (Except IoError α)) :
    parts (.ok a :: answers) = a :: parts answers := rfl

@[simp]
theorem parts_error (e : IoError) (answers : List (Except IoError α)) :
    parts (.error e :: answers) = parts answers := rfl

end

namespace Piecewise

variable {σ ι α : Type} (p : Piecewise σ ι α)

def moved (answers : List (Except IoError α)) : Nat := ((parts answers).map p.size).sum

def GoesOn : Except IoError α → Prop
  | .ok a => 0 < p.size a
  | .error e => e.kind = .interrupted

def after (i : ι) : Except IoError α → ι
  | .ok a => p.behind i a
  | .error _ => i

/-- What the calls ask for that get these answers. -/
def asks : ι → List (Except IoError α) → List ι
  | _, [] => []
  | i, r :: answers => i :: asks (p.after i r) answers

/-- No part is larger than what is wanted. -/
def Fits : Prop := ∀ {s s' i a}, p.ask s i = (.ok a, s') → p.size a ≤ p.wanted i

def askAll (s : σ) : List ι → List (Except IoError α) × σ
  | [] => ([], s)
  | i :: more =>
    let r := p.ask s i
    let rest := askAll r.2 more
    (r.1 :: rest.1, rest.2)

/-- Why a transfer of `i` ends with these answers, and what it reports. -/
inductive Ends (i : ι) : List (Except IoError α) → Option IoError → Prop
  | whole {answers} (hgo : ∀ r ∈ answers, p.GoesOn r) (hall : p.moved answers = p.wanted i) :
    Ends i answers none
  | nothing (front) {a} (hgo : ∀ r ∈ front, p.GoesOn r) (hless : p.moved front < p.wanted i)
    (hz : p.size a = 0) : Ends i (front ++ [.ok a]) p.nothing
  | failed (front) {e} (hgo : ∀ r ∈ front, p.GoesOn r) (hless : p.moved front < p.wanted i)
    (hk : e.kind ≠ .interrupted) : Ends i (front ++ [.error e]) (some e)

/-- The calls of a transfer, their answers, and why it ended. -/
structure Told (s : σ) (i : ι) (answers : List (Except IoError α)) (error : Option IoError)
    (s' : σ) : Prop where
  asked : p.askAll s (p.asks i answers) = (answers, s')
  wanted_pos : ∀ j ∈ p.asks i answers, 0 < p.wanted j
  ends : p.Ends i answers error

/-- A call, with those before it that were interrupted. -/
inductive Settles : σ → ι → Except IoError α → σ → Prop
  | answered {s s' i r} (ha : p.ask s i = (r, s'))
    (hr : ∀ e, r = .error e → e.kind ≠ .interrupted) : Settles s i r s'
  | again {s s' s'' i e r} (ha : p.ask s i = (.error e, s')) (hk : e.kind = .interrupted)
    (h : Settles s' i r s'') : Settles s i r s''

/-- A transfer from its first call to its last. -/
inductive Run : σ → ι → List (Except IoError α) → Option IoError → σ → Prop
  | whole {s i} (hi : p.wanted i = 0) : Run s i [] none s
  | nothing {s s' i a} (hi : 0 < p.wanted i) (ha : p.ask s i = (.ok a, s')) (hz : p.size a = 0) :
    Run s i [.ok a] p.nothing s'
  | failed {s s' i e} (hi : 0 < p.wanted i) (ha : p.ask s i = (.error e, s'))
    (hk : e.kind ≠ .interrupted) : Run s i [.error e] (some e) s'
  | goesOn {s s' s'' i r answers error} (hi : 0 < p.wanted i) (ha : p.ask s i = (r, s'))
    (hr : p.GoesOn r) (hrun : Run s' (p.after i r) answers error s'') :
    Run s i (r :: answers) error s''

variable {p} {s s' s'' : σ} {i : ι} {r : Except IoError α} {answers : List (Except IoError α)}
  {error : Option IoError}

theorem moved_ok (a : α) (answers : List (Except IoError α)) :
    p.moved (.ok a :: answers) = p.size a + p.moved answers := List.sum_cons

theorem moved_error (e : IoError) (answers : List (Except IoError α)) :
    p.moved (.error e :: answers) = p.moved answers := rfl

theorem moved_append (front back : List (Except IoError α)) :
    p.moved (front ++ back) = p.moved front + p.moved back := by
  simp only [moved, parts, List.filterMap_append, List.map_append, List.sum_append]

theorem GoesOn.cons (hr : p.GoesOn r) (hgo : ∀ r' ∈ answers, p.GoesOn r') :
    ∀ r' ∈ r :: answers, p.GoesOn r' := List.forall_mem_cons.2 ⟨hr, hgo⟩

theorem Ends.ok {a : α} (hr : p.GoesOn (.ok a)) (hle : p.size a ≤ p.wanted i)
    (h : p.Ends (p.behind i a) answers error) : p.Ends i (.ok a :: answers) error := by
  have hwanted := p.wanted_behind i a
  cases h with
  | whole hgo hall =>
    apply Ends.whole (hr.cons hgo)
    rw [moved_ok]
    omega
  | nothing front hgo hless hz =>
    apply Ends.nothing (.ok a :: front) (hr.cons hgo) ?_ hz
    rw [moved_ok]
    omega
  | failed front hgo hless hk =>
    apply Ends.failed (.ok a :: front) (hr.cons hgo) ?_ hk
    rw [moved_ok]
    omega

theorem Ends.interrupted {e : IoError} (hr : p.GoesOn (.error e))
    (h : p.Ends i answers error) : p.Ends i (.error e :: answers) error := by
  cases h with
  | whole hgo hall => exact .whole (hr.cons hgo) hall
  | nothing front hgo hless hz => exact .nothing (.error e :: front) (hr.cons hgo) hless hz
  | failed front hgo hless hk => exact .failed (.error e :: front) (hr.cons hgo) hless hk

/-- Where an empty part is a failure, all was moved just if no failure is reported. -/
theorem Ends.eq_none_iff (h : p.Ends i answers error) (hn : p.nothing ≠ none) :
    error = none ↔ p.moved answers = p.wanted i := by
  cases h with
  | whole _ hall => exact iff_of_true rfl hall
  | nothing _ _ hless hz =>
    rw [moved_append, moved_ok, hz]
    exact iff_of_false hn (Nat.ne_of_lt hless)
  | failed _ _ hless _ =>
    rw [moved_append, moved_error]
    exact iff_of_false (Option.some_ne_none _) (Nat.ne_of_lt hless)

/-- What goes on from the answer goes on from before the interruptions. -/
theorem Settles.run (h : p.Settles s i r s') (hi : 0 < p.wanted i)
    (hgo : ∀ {s₁}, p.ask s₁ i = (r, s') → (∀ e, r = .error e → e.kind ≠ .interrupted) →
      p.Run s₁ i answers error s'') :
    ∃ answers', p.Run s i answers' error s'' ∧ parts answers' = parts answers := by
  -- An interruption brings nothing, so that its answer adds nothing to the parts.
  induction h with
  | answered ha hr => exact ⟨answers, hgo ha hr, rfl⟩
  | again ha hk _ ih =>
    obtain ⟨answers', hrun, hparts⟩ := ih hi hgo
    exact ⟨_, .goesOn hi ha hk hrun, hparts⟩

namespace Run

theorem ends (hp : p.Fits) (h : p.Run s i answers error s') : p.Ends i answers error := by
  induction h with
  | whole hi => exact .whole (fun _ hm => absurd hm List.not_mem_nil) hi.symm
  | nothing hi _ hz => exact .nothing [] (fun _ hm => absurd hm List.not_mem_nil) hi hz
  | failed hi _ hk => exact .failed [] (fun _ hm => absurd hm List.not_mem_nil) hi hk
  | @goesOn _ _ _ _ r _ _ _ ha hr _ ih =>
    cases r with
    | ok a => exact ih.ok hr (hp ha)
    | error e => exact ih.interrupted hr

theorem asked (h : p.Run s i answers error s') : p.askAll s (p.asks i answers) = (answers, s') := by
  induction h with
  | whole => rfl
  | nothing _ ha _ => simp only [asks, askAll, ha]
  | failed _ ha _ => simp only [asks, askAll, ha]
  | goesOn _ ha _ _ ih => simp only [asks, askAll, ha, ih]

theorem wanted_pos (h : p.Run s i answers error s') : ∀ j ∈ p.asks i answers, 0 < p.wanted j := by
  induction h with
  | whole => exact fun j hj => absurd hj List.not_mem_nil
  | nothing hi _ _ => exact List.forall_mem_singleton.2 hi
  | failed hi _ _ => exact List.forall_mem_singleton.2 hi
  | goesOn hi _ _ _ ih => exact List.forall_mem_cons.2 ⟨hi, ih⟩

theorem told (hp : p.Fits) (h : p.Run s i answers error s') : p.Told s i answers error s' :=
  ⟨h.asked, h.wanted_pos, h.ends hp⟩

end Run

end Piecewise

open Piecewise (Run Settles Told)

/-! ## Whole reads -/

section

variable {σ : Type} [Device σ]

def reading (σ : Type) [Device σ] : Piecewise σ Nat Bytes where
  ask := Device.read
  wanted n := n
  size := List.length
  behind n bs := n - bs.length
  nothing := none
  wanted_behind _ _ := rfl

theorem fits_reading : (reading σ).Fits := fun h => Device.length_read_le (congrArg Prod.fst h)

/-- One turn of filling a place from `done` on, and whether another one follows. All ranges must lie
inside. -/
def readTurn? (place : Bytes) (done : Nat) (s : σ) : Option (Bool × Transfer × Bytes × σ) :=
  if done < place.length then do
    let free ← slice? place done place.length
    match Device.read s free.length with
    | (.ok bs, s') => do
      let place ← overwrite? place done bs
      return (bs != [], ⟨done + bs.length, none⟩, place, s')
    | (.error e, s') =>
      if e.kind = .interrupted then return (true, ⟨done, none⟩, place, s')
      else return (false, ⟨done, some e⟩, place, s')
  else return (false, ⟨done, none⟩, place, s)

/-- A turn that another one follows leaves less of the place to fill, or was interrupted. -/
theorem readTurn?_lt {place place' : Bytes} {done : Nat} {s s' : σ} {t : Transfer}
    (h : readTurn? place done s = some (true, t, place', s')) :
    Prod.Lex (· < ·) (· < ·) (place'.length - t.done, Device.patience s')
      (place.length - done, Device.patience s) := by
  unfold readTurn? at h
  by_cases hlt : done < place.length
  · rw [if_pos hlt] at h
    obtain ⟨free, -, h⟩ := Option.bind_eq_some_iff.1 h
    rcases hr : Device.read s free.length with ⟨e | bs, s₁⟩
    · rw [hr] at h
      by_cases hk : e.kind = .interrupted
      · simp only [if_pos hk] at h
        cases h
        have hless := Device.patience_read_lt (congrArg Prod.fst hr) hk
        rw [hr] at hless
        exact .right _ hless
      · simp only [if_neg hk] at h
        cases h
    · rw [hr] at h
      obtain ⟨place₁, hplace, h⟩ := Option.bind_eq_some_iff.1 h
      have hlength := length_of_overwrite? hplace
      by_cases hb : bs = []
      · subst hb
        cases h
      · have hpos := List.length_pos_iff.2 hb
        rw [bne_iff_ne.2 hb] at h
        cases h
        refine .left _ _ ?_
        dsimp only
        omega
  · rw [if_neg hlt] at h
    cases h

def readInto? (place : Bytes) (done : Nat) (s : σ) : Option (Transfer × Bytes × σ) :=
  match _h : readTurn? place done s with
  | none => none
  | some (false, r) => some r
  | some (true, t, place, s) => readInto? place t.done s
termination_by (place.length - done, Device.patience s)
decreasing_by exact readTurn?_lt _h

theorem readInto?_eq_bind (place : Bytes) (done : Nat) (s : σ) :
    readInto? place done s =
      (readTurn? place done s).bind fun r =>
        if r.1 then readInto? r.2.2.1 r.2.1.done r.2.2.2 else some r.2 := by
  rw [readInto?]
  split
  · next h => rw [h, Option.bind_none]
  · next h => rw [h]; rfl
  · next h => rw [h]; rfl

variable {s s' : σ} {n : Nat} {answers : List (Except IoError Bytes)} {error : Option IoError}

theorem readChunk_settles (s : σ) (n : Nat) :
    (reading σ).Settles s n (readChunk s n).1 (readChunk s n).2 := by
  fun_induction readChunk s n with
  | case1 s r bs hr =>
    refine .answered (Prod.ext hr rfl) ?_
    intro e he
    cases he
  | case2 s r e hr hk ih => exact .again (Prod.ext hr rfl) hk ih
  | case3 s r e hr hk =>
    refine .answered (Prod.ext hr rfl) ?_
    intro e' he
    cases he
    exact hk

theorem readFully_run (s : σ) (n : Nat) :
    ∃ answers, (reading σ).Run s n answers (readFully s n).1.error (readFully s n).2 ∧
      (readFully s n).1.bytes = (parts answers).flatten := by
  fun_induction readFully s n with
  | case1 s => exact ⟨[], .whole rfl, rfl⟩
  | case2 s n hn r e hr =>
    have hpos : 0 < n := Nat.pos_of_ne_zero hn
    obtain ⟨answers, hrun, hparts⟩ :=
      (readChunk_settles s n).run hpos fun ha hk => .failed hpos (hr ▸ ha) (hk e hr)
    exact ⟨answers, hrun, (congrArg List.flatten hparts).symm⟩
  | case3 s n hn r hr =>
    have hpos : 0 < n := Nat.pos_of_ne_zero hn
    obtain ⟨answers, hrun, hparts⟩ :=
      (readChunk_settles s n).run hpos fun ha _ => .nothing hpos (hr ▸ ha) rfl
    exact ⟨answers, hrun, (congrArg List.flatten hparts).symm⟩
  | case4 s n hn r bs hr hb rest ih =>
    have hpos : 0 < n := Nat.pos_of_ne_zero hn
    have hgo : (reading σ).GoesOn (.ok bs) := List.length_pos_iff.2 hb
    obtain ⟨more, hmore, hrest⟩ := ih
    obtain ⟨answers, hrun, hparts⟩ :=
      (readChunk_settles s n).run hpos fun ha _ => .goesOn hpos (hr ▸ ha) hgo hmore
    refine ⟨answers, hrun, ?_⟩
    rw [hparts, hrest]
    rfl

theorem readInto?_step {place : Bytes} {done : Nat} (hplace : place.length = done + n)
    (hi : 0 < (reading σ).wanted n) (s : σ) :
    readInto? place done s =
      match (reading σ).ask s n with
      | (.ok bs, s') =>
        if bs = [] then some (⟨done, none⟩, place, s')
        else readInto? (overwrite place done bs) (done + bs.length) s'
      | (.error e, s') =>
        if e.kind = .interrupted then readInto? place done s'
        else some (⟨done, some e⟩, place, s') := by
  have hlt : done < place.length := by
    rw [hplace]
    exact Nat.lt_add_of_pos_right hi
  have hfree : (place.drop done).length = n := by
    rw [List.length_drop, hplace, Nat.add_sub_cancel_left]
  rw [readInto?_eq_bind, readTurn?, if_pos hlt, slice?_to_end (Nat.le_of_lt hlt)]
  simp only [Option.bind_eq_bind, Option.bind_some, hfree]
  change Option.bind (match (reading σ).ask s n with
    | (.ok bs, s') => _ | (.error e, s') => _) _ = _
  rcases hr : (reading σ).ask s n with ⟨e | bs, s'⟩
  · by_cases hk : e.kind = .interrupted
    · simp only [if_pos hk]
      rfl
    · simp only [if_neg hk]
      rfl
  · have hle : bs.length ≤ n := fits_reading hr
    dsimp only
    rw [overwrite?_eq_some (by omega), Option.bind_some, Option.pure_def, Option.bind_some]
    by_cases hb : bs = []
    · rw [if_pos hb, hb, overwrite_nil_new place (Nat.le_of_lt hlt)]
      rfl
    · rw [if_neg hb, if_pos (bne_iff_ne.2 hb)]

theorem readInto?_of_run (h : (reading σ).Run s n answers error s') {place : Bytes} {done : Nat}
    (hplace : place.length = done + n) :
    readInto? place done s =
      some (⟨done + (parts answers).flatten.length, error⟩,
        overwrite place done (parts answers).flatten, s') := by
  have hkeep {place : Bytes} {done n : Nat} (hplace : place.length = done + n) :
      overwrite place done [] = place := overwrite_nil_new place (by omega)
  -- Each call leaves another place behind, which is where the rest of the run goes on.
  induction h generalizing place done with
  | @whole s n hi =>
    have hn : n = 0 := hi
    rw [readInto?_eq_bind, readTurn?, if_neg (by omega), parts_nil, List.flatten_nil, hkeep hplace]
    rfl
  | nothing hi ha hz =>
    obtain rfl := List.length_eq_zero_iff.1 hz
    rw [readInto?_step hplace hi, ha, parts_ok, parts_nil, List.flatten_singleton, hkeep hplace]
    rfl
  | failed hi ha hk =>
    rw [readInto?_step hplace hi, ha, parts_error, parts_nil, List.flatten_nil, hkeep hplace]
    exact if_neg hk
  | @goesOn s s' s'' n r answers error hi ha hr hrun ih =>
    rw [readInto?_step hplace hi, ha]
    cases r with
    | error e => exact (if_pos hr).trans (ih hplace)
    | ok bs =>
      have hpos : 0 < bs.length := hr
      have hsize : bs.length ≤ n := fits_reading ha
      have hlength : (overwrite place done bs).length = done + bs.length + (n - bs.length) := by
        rw [length_overwrite]
        omega
      rw [parts_ok, List.flatten_cons, List.length_append, ← Nat.add_assoc, ← overwrite_append,
        ← ih hlength]
      exact if_neg (List.length_pos_iff.1 hpos)

/-- A device whose reads never fail. It offers certain bytes and brings them in parts. -/
structure Delivering (offers : σ → Bytes → Prop) : Prop where
  read_ok : ∀ {s s' rest n bs}, offers s rest → Device.read s n = (.ok bs, s') →
    ∃ more, rest = bs ++ more ∧ offers s' more ∧ (bs = [] → n = 0 ∨ rest = [])
  read_error : ∀ {s s' rest n e}, offers s rest → Device.read s n = (.error e, s') →
    e.kind = .interrupted ∧ offers s' rest

/-- The answers bring what was asked for, or all that is offered. -/
theorem Delivering.run {offers : σ → Bytes → Prop} (h : Delivering offers) {rest : Bytes}
    (hs : offers s rest) (hrun : (reading σ).Run s n answers error s') :
    error = none ∧ (parts answers).flatten = rest.take n ∧ offers s' (rest.drop n) := by
  induction hrun generalizing rest with
  | @whole s n hi =>
    obtain rfl : n = 0 := hi
    exact ⟨rfl, List.take_zero.symm, hs⟩
  | @nothing s s' n bs hi ha hz =>
    obtain rfl := List.length_eq_zero_iff.1 hz
    obtain ⟨more, hmore, hs', hend⟩ := h.read_ok hs ha
    obtain rfl : rest = [] := (hend rfl).resolve_left (Nat.ne_of_gt hi)
    obtain rfl : more = [] := hmore.symm
    exact ⟨rfl, List.take_nil.symm, List.drop_nil.symm ▸ hs'⟩
  | failed hi ha hk => exact absurd (h.read_error hs ha).1 hk
  | @goesOn s s' s'' n r answers error hi ha hr hrun ih =>
    cases r with
    | error e => exact ih (h.read_error hs ha).2
    | ok bs =>
      have hle : bs.length ≤ n := fits_reading ha
      obtain ⟨more, rfl, hs', -⟩ := h.read_ok hs ha
      obtain ⟨herror, hbytes, hs''⟩ := ih hs'
      refine ⟨herror, ?_, ?_⟩
      · rw [parts_ok, List.flatten_cons, hbytes, List.take_append, List.take_of_length_le hle]
        rfl
      · rw [List.drop_append, List.drop_eq_nil_of_le hle]
        exact hs''

end

/-! ## Whole writes -/

section

variable {σ : Type} [Device σ]

def writing (σ : Type) [Device σ] : Piecewise σ Bytes Nat where
  ask := Device.write
  wanted := List.length
  size k := k
  behind src k := src.drop k
  nothing := some .nothingAccepted
  wanted_behind _ _ := List.length_drop

theorem fits_writing [WritesWithin σ] : (writing σ).Fits :=
  fun h => WritesWithin.write_le (congrArg Prod.fst h)

def accepted (src : Bytes) : Except IoError Nat → Bytes
  | .ok k => src.take k
  | .error _ => []

/-- What was taken of a source and of the sources of all further calls. -/
def handed (asked : List Bytes) (answers : List (Except IoError Nat)) : Bytes :=
  (List.zipWith accepted asked answers).flatten

/-- One turn of writing a source from `done` on, and whether another one follows. All ranges must
lie inside. -/
def writeTurn? (src : Bytes) (done : Nat) (s : σ) : Option (Bool × Transfer × σ) :=
  if done < src.length then do
    let rest ← slice? src done src.length
    match Device.write s rest with
    | (.ok k, s') =>
      if k = 0 then return (false, ⟨done, some .nothingAccepted⟩, s')
      else return (true, ⟨done + k, none⟩, s')
    | (.error e, s') =>
      if e.kind = .interrupted then return (true, ⟨done, none⟩, s')
      else return (false, ⟨done, some e⟩, s')
  else return (false, ⟨done, none⟩, s)

/-- A turn that another one follows leaves less of the source to write, or was interrupted. -/
theorem writeTurn?_lt {src : Bytes} {done : Nat} {s s' : σ} {t : Transfer}
    (h : writeTurn? src done s = some (true, t, s')) :
    Prod.Lex (· < ·) (· < ·) (src.length - t.done, Device.patience s')
      (src.length - done, Device.patience s) := by
  unfold writeTurn? at h
  by_cases hlt : done < src.length
  · rw [if_pos hlt] at h
    obtain ⟨rest, -, h⟩ := Option.bind_eq_some_iff.1 h
    rcases hr : Device.write s rest with ⟨e | k, s₁⟩
    · rw [hr] at h
      by_cases hk : e.kind = .interrupted
      · simp only [if_pos hk] at h
        cases h
        have hless := Device.patience_write_lt (congrArg Prod.fst hr) hk
        rw [hr] at hless
        exact .right _ hless
      · simp only [if_neg hk] at h
        cases h
    · rw [hr] at h
      by_cases hk : k = 0
      · simp only [if_pos hk] at h
        cases h
      · simp only [if_neg hk] at h
        cases h
        refine .left _ _ ?_
        dsimp only
        omega
  · rw [if_neg hlt] at h
    cases h

def writeFrom? (src : Bytes) (done : Nat) (s : σ) : Option (Transfer × σ) :=
  match _h : writeTurn? src done s with
  | none => none
  | some (false, r) => some r
  | some (true, t, s) => writeFrom? src t.done s
termination_by (src.length - done, Device.patience s)
decreasing_by exact writeTurn?_lt _h

theorem writeFrom?_eq_bind (src : Bytes) (done : Nat) (s : σ) :
    writeFrom? src done s =
      (writeTurn? src done s).bind fun r =>
        if r.1 then writeFrom? src r.2.1.done r.2.2 else some r.2 := by
  rw [writeFrom?]
  split
  · next h => rw [h, Option.bind_none]
  · next h => rw [h]; rfl
  · next h => rw [h]; rfl

variable {s s' : σ} {src : Bytes} {answers : List (Except IoError Nat)} {error : Option IoError}

theorem writeChunk_settles (s : σ) (src : Bytes) :
    (writing σ).Settles s src (writeChunk s src).1 (writeChunk s src).2 := by
  fun_induction writeChunk s src with
  | case1 s r k hr =>
    refine .answered (Prod.ext hr rfl) ?_
    intro e he
    cases he
  | case2 s r e hr hk ih => exact .again (Prod.ext hr rfl) hk ih
  | case3 s r e hr hk =>
    refine .answered (Prod.ext hr rfl) ?_
    intro e' he
    cases he
    exact hk

theorem writeFully_run (s : σ) (src : Bytes) :
    ∃ answers, (writing σ).Run s src answers (writeFully s src).1.error (writeFully s src).2 ∧
      (writeFully s src).1.done = (parts answers).sum := by
  fun_induction writeFully s src with
  | case1 s => exact ⟨[], .whole rfl, rfl⟩
  | case2 s src hsrc r e hr =>
    have hpos : 0 < src.length := List.length_pos_iff.2 hsrc
    obtain ⟨answers, hrun, hparts⟩ :=
      (writeChunk_settles s src).run hpos fun ha hk => .failed hpos (hr ▸ ha) (hk e hr)
    exact ⟨answers, hrun, (congrArg List.sum hparts).symm⟩
  | case3 s src hsrc r hr =>
    have hpos : 0 < src.length := List.length_pos_iff.2 hsrc
    obtain ⟨answers, hrun, hparts⟩ :=
      (writeChunk_settles s src).run hpos fun ha _ => .nothing hpos (hr ▸ ha) rfl
    exact ⟨answers, hrun, (congrArg List.sum hparts).symm⟩
  | case4 s src hsrc r k hr hk rest ih =>
    have hpos : 0 < src.length := List.length_pos_iff.2 hsrc
    have hgo : (writing σ).GoesOn (.ok k) := Nat.pos_of_ne_zero hk
    obtain ⟨more, hmore, hrest⟩ := ih
    obtain ⟨answers, hrun, hparts⟩ :=
      (writeChunk_settles s src).run hpos fun ha _ => .goesOn hpos (hr ▸ ha) hgo hmore
    refine ⟨answers, hrun, ?_⟩
    rw [hparts, hrest]
    rfl

theorem moved_writing (answers : List (Except IoError Nat)) :
    (writing σ).moved answers = (parts answers).sum := congrArg List.sum (List.map_id _)

/-- Call by call the device takes the source, without a gap and nothing twice. -/
theorem handed_of_run (h : (writing σ).Run s src answers error s') :
    handed ((writing σ).asks src answers) answers = src.take (parts answers).sum := by
  induction h with
  | whole => rfl
  | @nothing _ _ src k _ _ hz =>
    obtain rfl : k = 0 := hz
    rfl
  | failed => rfl
  | @goesOn _ _ _ src r answers _ _ ha _ _ ih =>
    cases r with
    | error e => exact ih
    | ok k =>
      have hih : handed ((writing σ).asks (src.drop k) answers) answers =
          (src.drop k).take (parts answers).sum := ih
      rw [parts_ok, List.sum_cons, List.take_add, ← hih]
      rfl

theorem writeFrom?_step {done : Nat} (hi : 0 < (writing σ).wanted (src.drop done)) (s : σ) :
    writeFrom? src done s =
      match (writing σ).ask s (src.drop done) with
      | (.ok k, s') =>
        if k = 0 then some (⟨done, some .nothingAccepted⟩, s') else writeFrom? src (done + k) s'
      | (.error e, s') =>
        if e.kind = .interrupted then writeFrom? src done s' else some (⟨done, some e⟩, s') := by
  have hlt : done < src.length := Nat.lt_of_sub_pos (List.length_drop ▸ hi)
  rw [writeFrom?_eq_bind, writeTurn?, if_pos hlt, slice?_to_end (Nat.le_of_lt hlt)]
  change Option.bind (match (writing σ).ask s (src.drop done) with
    | (.ok k, s') => _ | (.error e, s') => _) _ = _
  rcases (writing σ).ask s (src.drop done) with ⟨e | k, s'⟩
  · by_cases hk : e.kind = .interrupted
    · simp only [if_pos hk]
      rfl
    · simp only [if_neg hk]
      rfl
  · by_cases hk : k = 0
    · simp only [if_pos hk]
      rfl
    · simp only [if_neg hk]
      rfl

theorem writeFrom?_of_run {rest : Bytes} (h : (writing σ).Run s rest answers error s') {done : Nat}
    (hrest : rest = src.drop done) :
    writeFrom? src done s = some (⟨done + (parts answers).sum, error⟩, s') := by
  induction h generalizing done with
  | whole hi =>
    subst hrest
    have hend : src.length ≤ done := List.drop_eq_nil_iff.1 (List.length_eq_zero_iff.1 hi)
    rw [writeFrom?_eq_bind, writeTurn?, if_neg (Nat.not_lt.2 hend)]
    rfl
  | @nothing s s' rest k hi ha hz =>
    subst hrest
    obtain rfl : k = 0 := hz
    rw [writeFrom?_step hi, ha]
    rfl
  | failed hi ha hk =>
    subst hrest
    rw [writeFrom?_step hi, ha]
    exact if_neg hk
  | @goesOn s s' s'' rest r answers error hi ha hr hrun ih =>
    subst hrest
    rw [writeFrom?_step hi, ha]
    cases r with
    | error e => exact (if_pos hr).trans (ih rfl)
    | ok k =>
      have hdrop : (writing σ).after (src.drop done) (.ok k) = src.drop (done + k) :=
        List.drop_drop
      rw [parts_ok, List.sum_cons, ← Nat.add_assoc, ← ih hdrop]
      exact if_neg (Nat.ne_of_gt hr)

/-- A device whose writes never fail. It takes what it is given in parts. -/
structure Accepting (took : σ → Bytes → Prop) : Prop where
  write_ok : ∀ {s s' out src k}, took s out → src ≠ [] → Device.write s src = (.ok k, s') →
    0 < k ∧ took s' (out ++ src.take k)
  write_error : ∀ {s s' out src e}, took s out → src ≠ [] → Device.write s src = (.error e, s') →
    e.kind = .interrupted ∧ took s' out

theorem Accepting.run {took : σ → Bytes → Prop} (h : Accepting took) {out : Bytes}
    (hs : took s out) (hrun : (writing σ).Run s src answers error s') :
    error = none ∧ took s' (out ++ src) := by
  induction hrun generalizing out with
  | @whole s src hi =>
    obtain rfl := List.length_eq_zero_iff.1 hi
    exact ⟨rfl, (List.append_nil out).symm ▸ hs⟩
  | nothing hi ha hz =>
    have hpos := (h.write_ok hs (List.length_pos_iff.1 hi) ha).1
    exact absurd hz (Nat.ne_of_gt hpos)
  | failed hi ha hk => exact absurd (h.write_error hs (List.length_pos_iff.1 hi) ha).1 hk
  | @goesOn s s' s'' src r answers error hi ha hr hrun ih =>
    cases r with
    | error e => exact ih (h.write_error hs (List.length_pos_iff.1 hi) ha).2
    | ok k =>
      obtain ⟨herror, hs''⟩ := ih (h.write_ok hs (List.length_pos_iff.1 hi) ha).2
      refine ⟨herror, ?_⟩
      have hall : out ++ src.take k ++ src.drop k = out ++ src := by
        rw [List.append_assoc, List.take_append_drop]
      rw [← hall]
      exact hs''

end

/-! ## The outcome of a transfer -/

section

variable {σ : Type} [Device σ]

theorem Reliable.delivering (σ : Type) [Device σ] [Reliable σ] :
    Delivering fun (s : σ) rest => ∃ f, Reliable.Shows s f ∧ f.rest = rest where
  read_ok := by
    rintro s s' rest n bs ⟨f, hs, rfl⟩ h
    obtain ⟨⟨more, hmore⟩, hend, hs'⟩ := Reliable.read_ok hs h
    refine ⟨more, hmore.symm, ⟨_, hs', ?_⟩, hend⟩
    rw [File.rest_advance, ← hmore, List.drop_left]
  read_error := by
    rintro s s' rest n e ⟨f, hs, rfl⟩ h
    obtain ⟨hk, hs'⟩ := Reliable.read_error hs h
    exact ⟨hk, f, hs', rfl⟩

theorem Reliable.accepting (σ : Type) [Device σ] [Reliable σ] (f : File) :
    Accepting fun (s : σ) out => Reliable.Shows s (f.write out) where
  write_ok := by
    intro s s' out src k hs hsrc h
    rw [← File.write_append]
    exact Reliable.write_ok hs hsrc h
  write_error hs hsrc h := Reliable.write_error hs hsrc h

/-- No range of the loop over a place lies outside it. -/
theorem readInto?_eq (place : Bytes) (s : σ) :
    readInto? place 0 s =
      let r := readFully s place.length
      some (⟨r.1.bytes.length, r.1.error⟩, r.1.bytes ++ place.drop r.1.bytes.length, r.2) := by
  obtain ⟨answers, hrun, hbytes⟩ := readFully_run s place.length
  rw [readInto?_of_run hrun (Nat.zero_add _).symm, overwrite_zero, Nat.zero_add, ← hbytes]

theorem readFully_told (s : σ) (place : Bytes) :
    let r := readFully s place.length
    ∃ answers, (reading σ).Told s place.length answers r.1.error r.2 ∧
      r.1.bytes = (parts answers).flatten ∧
      readInto? place 0 s =
        some (⟨r.1.bytes.length, r.1.error⟩, r.1.bytes ++ place.drop r.1.bytes.length, r.2) := by
  intro r
  obtain ⟨answers, hrun, hbytes⟩ := readFully_run s place.length
  exact ⟨answers, hrun.told fits_reading, hbytes, readInto?_eq place s⟩

/-- No range of the loop along a source lies outside it, whatever the device counts. -/
theorem writeFrom?_eq (src : Bytes) (s : σ) : writeFrom? src 0 s = some (writeFully s src) := by
  obtain ⟨answers, hrun, hdone⟩ := writeFully_run s src
  rw [writeFrom?_of_run hrun List.drop_zero.symm, Nat.zero_add, ← hdone]

theorem writeFully_told [WritesWithin σ] (s : σ) (src : Bytes) :
    let r := writeFully s src
    ∃ answers, (writing σ).Told s src answers r.1.error r.2 ∧
      handed ((writing σ).asks src answers) answers = src.take r.1.done ∧
      (r.1.error = none ↔ r.1.done = src.length) ∧ writeFrom? src 0 s = some r := by
  intro r
  obtain ⟨answers, hrun, hdone⟩ := writeFully_run s src
  refine ⟨answers, hrun.told fits_writing, ?_, ?_, writeFrom?_eq src s⟩
  · rw [handed_of_run hrun, hdone]
  · rw [(hrun.ends fits_writing).eq_none_iff (Option.some_ne_none _), moved_writing, hdone]
    rfl

theorem Delivering.readFully {offers : σ → Bytes → Prop} (h : Delivering offers) {s : σ}
    {rest : Bytes} (hs : offers s rest) (n : Nat) :
    (ByteChannel.readFully s n).1 = ⟨rest.take n, none⟩ ∧
      offers (ByteChannel.readFully s n).2 (rest.drop n) := by
  obtain ⟨answers, hrun, hbytes⟩ := readFully_run s n
  obtain ⟨herror, htake, hs'⟩ := h.run hs hrun
  refine ⟨?_, hs'⟩
  rw [← htake, ← hbytes, ← herror]

theorem Accepting.writeFully [WritesWithin σ] {took : σ → Bytes → Prop} (h : Accepting took)
    {s : σ} {out : Bytes} (hs : took s out) (src : Bytes) :
    (ByteChannel.writeFully s src).1 = ⟨src.length, none⟩ ∧
      took (ByteChannel.writeFully s src).2 (out ++ src) := by
  obtain ⟨answers, hrun, hdone⟩ := writeFully_run s src
  obtain ⟨herror, hs'⟩ := h.run hs hrun
  have hall : (ByteChannel.writeFully s src).1.done = src.length := by
    have hmoved := ((hrun.ends fits_writing).eq_none_iff (Option.some_ne_none _)).1 herror
    rw [moved_writing, ← hdone] at hmoved
    exact hmoved
  refine ⟨?_, hs'⟩
  rw [← hall, ← herror]

/-- Whatever the calls of a device answer that counts no more than it was given, a whole transfer
ends, and reports just what they brought or took, without a gap and nothing twice. No range of the
loop over the place or along the source lies outside. Where no call fails, the outcome is that of
what is offered or given. -/
theorem whole_transfers_exact [WritesWithin σ] (s : σ) :
    (∀ place : Bytes,
      let r := readFully s place.length
      ∃ answers, (reading σ).Told s place.length answers r.1.error r.2 ∧
        r.1.bytes = (parts answers).flatten ∧
        readInto? place 0 s =
          some (⟨r.1.bytes.length, r.1.error⟩, r.1.bytes ++ place.drop r.1.bytes.length, r.2)) ∧
    (∀ src : Bytes,
      let r := writeFully s src
      ∃ answers, (writing σ).Told s src answers r.1.error r.2 ∧
        handed ((writing σ).asks src answers) answers = src.take r.1.done ∧
        (r.1.error = none ↔ r.1.done = src.length) ∧ writeFrom? src 0 s = some r) ∧
    (∀ offers : σ → Bytes → Prop, Delivering offers → ∀ rest n, offers s rest →
      (readFully s n).1 = ⟨rest.take n, none⟩ ∧ offers (readFully s n).2 (rest.drop n)) ∧
    ∀ took : σ → Bytes → Prop, Accepting took → ∀ out src, took s out →
      (writeFully s src).1 = ⟨src.length, none⟩ ∧ took (writeFully s src).2 (out ++ src) := by
  refine ⟨readFully_told s, writeFully_told s, ?_, ?_⟩
  · intro offers h rest n hs
    exact h.readFully hs n
  · intro took h out src hs
    exact h.writeFully hs src

/-- One device in small pieces and interrupted again and again, and what it shows in the end. -/
theorem whole_transfers_exact_in_pieces :
    let d : Faulty :=
      { cursor := .ofBytes [97, 98, 99, 100, 101] 0
        readChunk := some 2
        writeChunk := some 1
        interruptPeriod := 2 }
    let file : File := ⟨[97, 98, 99, 100, 101], 0⟩
    (readFully d 4).1 = ⟨[97, 98, 99, 100], none⟩ ∧
      (∃ f, Reliable.Shows (readFully d 4).2 f ∧ f.rest = [101]) ∧
      (writeFully d [120, 121]).1 = ⟨2, none⟩ ∧
      Reliable.Shows (writeFully d [120, 121]).2 (file.write [120, 121]) := by
  intro d file
  have hd : d.Unlimited := ⟨by decide, by decide, rfl, rfl, rfl, rfl⟩
  have hs : Reliable.Shows d file := ⟨hd, congrArg (File.mk · 0) (Cursor.bytes_ofBytes _ _)⟩
  obtain ⟨-, -, hread, hwrite⟩ := whole_transfers_exact d
  obtain ⟨hbytes, hrest⟩ := hread _ (Reliable.delivering Faulty) file.rest 4 ⟨file, hs, rfl⟩
  obtain ⟨hdone, hout⟩ :=
    hwrite _ (Reliable.accepting Faulty file) [] [120, 121] (file.write_nil.symm ▸ hs)
  exact ⟨hbytes, hrest, hdone, hout⟩

end

end ByteChannel
