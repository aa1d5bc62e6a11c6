import Mathlib
import ByteChannel.Proofs.Device.Whole
import ByteChannel.Proofs.Text.Expanded

/-!
# An expander stays in its batch

The operations of an expander are written here once more with checked ranges: those of the source,
which is cut at one line feed after the other, and those of the batch. When a write breaks off, the
count is found backwards from the part of the batch that was not taken, by differences that have to
exist. Each operation has a result, the one of the expander, as long as the device counts no more
than it was given.
-/

namespace ByteChannel.Text

/-- The lines of a text, cut out at one line feed after the other. -/
def lines? (src : Bytes) : Option (List Bytes × Bytes) :=
  match src.idxOf? lf with
  | none => some ([], src)
  | some i =>
    match _h : slice? src (i + 1) src.length with
    | none => none
    | some rest => do
      let line ← slice? src 0 i
      let more ← lines? rest
      return (line :: more.1, more.2)
termination_by src.length
decreasing_by
  have := bounds_of_slice? _h
  omega

theorem lines_of_notMem {bs : Bytes} (h : lf ∉ bs) : lines bs = ([], bs) := by
  induction bs with
  | nil => rfl
  | cons b bs ih =>
    have hb : b ≠ lf := fun hb => h (by simp [hb])
    rw [lines, ih fun hm => h (List.mem_cons_of_mem b hm)]
    exact if_neg hb

theorem lines_append_cons {line : Bytes} (h : lf ∉ line) (rest : Bytes) :
    lines (line ++ lf :: rest) = (line :: (lines rest).1, (lines rest).2) := by
  induction line with
  | nil =>
    rw [List.nil_append, lines]
    exact if_pos rfl
  | cons b line ih =>
    have hb : b ≠ lf := fun hb => h (by simp [hb])
    rw [List.cons_append, lines, ih fun hm => h (List.mem_cons_of_mem b hm)]
    exact if_neg hb

theorem lines?_eq (src : Bytes) : lines? src = some (lines src) := by
  induction hk : src.length using Nat.strongRecOn generalizing src with
  | ind k ih =>
    subst hk
    by_cases hlf : lf ∈ src
    · obtain ⟨line, rest, rfl, hline⟩ := List.eq_append_cons_of_mem hlf
      have hlength : (line ++ lf :: rest).length = line.length + 1 + rest.length := by
        rw [List.length_append, List.length_cons]
        omega
      have hless : rest.length < (line ++ lf :: rest).length := by omega
      have hdrop : (line ++ lf :: rest).drop (line.length + 1) = rest :=
        List.drop_length_add_append 1
      have hmore : slice? (line ++ lf :: rest) (line.length + 1) (line ++ lf :: rest).length =
          some rest := by rw [slice?_to_end (by omega), hdrop]
      rw [lines?, idxOf?_append_cons hline, lines_append_cons hline]
      dsimp only
      split
      · next h =>
        rw [hmore] at h
        cases h
      · next h =>
        rw [hmore] at h
        cases h
        rw [slice?_left, ih _ hless rest rfl]
        rfl
    · rw [lines?, List.idxOf?_eq_none_iff.2 hlf, lines_of_notMem hlf]

namespace Expander

section

variable {σ : Type} [Device σ]

/-! ## Checked ranges and differences -/

/-- Lays bytes behind what is gathered, if the batch takes all of them. -/
def gather? (t : Expander) (bs : Bytes) : Option Expander :=
  if t.gathered.length + bs.length ≤ t.capacity then some (t.gather bs) else none

def room? (t : Expander) : Option Nat := subtract? t.capacity t.gathered.length

def insertedWithin? (t : Expander) (done : Nat) : Option Nat :=
  if done = t.gathered.length then some t.newlines
  else do
    let lost ← slice? t.batch done t.batch.length
    let out ← subtract? t.newlines (countNewlines lost)
    return out + if 0 < done ∧ lost.head? = some lf then 1 else 0

def writeDirect? (t : Expander) (s : σ) (bs : Bytes) : Option (Bool × Expander × σ) := do
  let r ← writeFrom? bs 0 s
  return (r.1.error.isNone, { t with taken := t.taken + r.1.done, error := r.1.error }, r.2)

def flush? (t : Expander) (s : σ) : Option (Bool × Expander × σ) := do
  let batch ← fitting? t.capacity t.batch
  let r ← writeFrom? batch 0 s
  let inserted ← t.insertedWithin? r.1.done
  let taken ← subtract? r.1.done inserted
  return (r.1.error.isNone,
    { t.emptied with taken := t.taken + taken, error := r.1.error }, r.2)

def appendNewline? (t : Expander) (s : σ) : Option (Bool × Expander × σ) := do
  let room ← t.room?
  let r ← (if room < 2 then t.flush? s else some (true, t, s))
  if r.1 then do
    let u ← r.2.1.gather? [cr, lf]
    return (true, { u with newlines := u.newlines + 1 }, r.2.2)
  else return r

def append? (t : Expander) (s : σ) (bs : Bytes) : Option (Bool × Expander × σ) :=
  if t.capacity ≤ bs.length then do
    let r ← (if t.gathered = [] then some (true, t, s) else t.flush? s)
    if r.1 then r.2.1.writeDirect? r.2.2 bs else return r
  else do
    let room ← t.room?
    if room = 0 then do
      let r ← t.flush? s
      if r.1 then return (true, ← r.2.1.gather? bs, r.2.2) else return r
    else if room < bs.length then do
      let front ← slice? bs 0 room
      let full ← t.gather? front
      let r ← full.flush? s
      if r.1 then do
        let back ← slice? bs room bs.length
        return (true, ← r.2.1.gather? back, r.2.2)
      else return r
    else return (true, ← t.gather? bs, s)

def appendLines? (t : Expander) (s : σ) : List Bytes → Option (Bool × Expander × σ)
  | [] => some (true, t, s)
  | l :: ls => do
    let r ← (if l = [] then some (true, t, s) else t.append? s l)
    if r.1 then
      let r ← r.2.1.appendNewline? r.2.2
      if r.1 then appendLines? r.2.1 r.2.2 ls else return r
    else return r

def finish? (t : Expander) (s : σ) (rest : Bytes) : Option (Bool × Expander × σ) :=
  if rest = [] then if t.gathered = [] then some (true, t, s) else t.flush? s
  else if t.gathered = [] then t.writeDirect? s rest
  else do
    let room ← t.room?
    if room < rest.length then do
      let r ← t.flush? s
      if r.1 then r.2.1.writeDirect? r.2.2 rest else return r
    else do
      let full ← t.gather? rest
      full.flush? s

def write? (t : Expander) (s : σ) (src : Bytes) : Option (Transfer × Expander × σ) := do
  let parts ← lines? src
  let r ← t.cleared.appendLines? s parts.1
  let r ← (if r.1 then r.2.1.finish? r.2.2 parts.2 else some r)
  return (⟨r.2.1.taken, r.2.1.error⟩, { r.2.1.emptied with error := none }, r.2.2)

end

section

variable {σ : Type} [Device σ] {k : Sink σ} {t : Expander} {s : σ} {src waiting : Bytes}

theorem gather?_eq_some {bs : Bytes} (h : t.gathered.length + bs.length ≤ t.capacity) :
    t.gather? bs = some (t.gather bs) := if_pos h

/-- What fits the whole batch fits after a flush. -/
theorem gather?_flush {bs : Bytes} (h : bs.length ≤ t.capacity) :
    (t.flush s).2.1.gather? bs = some ((t.flush s).2.1.gather bs) :=
  gather?_eq_some (Nat.le_trans (Nat.le_of_eq (Nat.zero_add _)) h)

theorem writeDirect?_eq (t : Expander) (s : σ) (bs : Bytes) :
    t.writeDirect? s bs = some (t.writeDirect s bs) := by
  rw [writeDirect?, writeFrom?_eq]
  rfl

theorem Underway.room? (h : Underway k t s src waiting) : t.room? = some t.room := by
  rw [Expander.room?, subtract?_eq_some h.fits, t.room_eq]

theorem Underway.insertedWithin? (h : Underway k t s src waiting) {n : Nat}
    (hn : n ≤ t.batch.length) : t.insertedWithin? n = some (t.insertedWithin n) := by
  rw [Expander.insertedWithin?, insertedWithin]
  by_cases hall : n = t.gathered.length
  · rw [if_pos hall, if_pos hall]
  · have hlt : n < t.batch.length := Nat.lt_of_le_of_ne hn (t.length_batch ▸ hall)
    obtain ⟨-, -, -, -, -, hcount, -⟩ := h.insertedWithin_cut hlt
    rw [if_neg hall, if_neg hall, slice?_to_end hn, Option.bind_eq_bind, Option.bind_some,
      subtract?_eq_some hcount]
    rfl

/-- No more was put in than is out. -/
theorem Underway.insertedWithin_le (h : Underway k t s src waiting) {n : Nat}
    (hn : n ≤ t.batch.length) : t.insertedWithin n ≤ n := by
  rcases Nat.lt_or_eq_of_le hn with hlt | rfl
  · obtain ⟨front, -, -, -, hins, -⟩ := h.insertedWithin_cut hlt
    exact Nat.le.intro hins
  · exact Nat.le.intro h.insertedWithin_whole

theorem Underway.flush? (h : Underway k t s src waiting) : t.flush? s = some (t.flush s) := by
  have hdone : (writeFully s t.batch).1.done ≤ t.batch.length := by
    obtain ⟨_, _, _, htook⟩ := h.sent
    rcases k.whole t.batch htook with ⟨s', hr, -⟩ | ⟨n, e, s', hr, -⟩
    · exact Nat.le_of_eq (by rw [hr])
    · apply Nat.le_of_lt
      apply done_writeFully_lt
      rw [hr]
      exact Option.some_ne_none e
  have hfits : t.batch.length ≤ t.capacity := t.length_batch ▸ h.fits
  rw [Expander.flush?, fitting?_eq_some hfits]
  simp only [Option.bind_eq_bind, Option.bind_some, writeFrom?_eq, h.insertedWithin? hdone,
    subtract?_eq_some (h.insertedWithin_le hdone)]
  rfl

theorem Underway.appendNewline? (h : Underway k t s src waiting) :
    t.appendNewline? s = some (t.appendNewline s) := by
  have hflush : (if t.room < 2 then t.flush? s else some (true, t, s)) =
      some (if t.room < 2 then t.flush s else (true, t, s)) := by
    rw [h.flush?]
    split <;> rfl
  have hroom := h.makeRoom
  have htwo := t.two_le_room s
  rw [Expander.appendNewline?, Expander.appendNewline, h.room?]
  simp only [Option.bind_eq_bind, Option.bind_some, hflush]
  generalize (if t.room < 2 then t.flush s else (true, t, s)) = r at hroom htwo ⊢
  obtain ⟨_, ⟨hok, hw⟩ | ⟨hno, -⟩⟩ := hroom
  · have hfits : r.2.1.gathered.length + [cr, lf].length ≤ r.2.1.capacity :=
      hw.gathered_add_le htwo
    rw [if_pos hok, if_pos hok, gather?_eq_some hfits]
    rfl
  · simp only [hno, Bool.false_eq_true, if_false]
    rfl

theorem Underway.append? (h : Underway k t s src waiting) {bs : Bytes} (hbs : lf ∉ bs) :
    t.append? s bs = some (t.append s bs) := by
  rw [Expander.append?, Expander.append]
  by_cases hbig : t.capacity ≤ bs.length
  · rw [if_pos hbig, if_pos hbig, h.flush?]
    by_cases hg : t.gathered = []
    · simp only [if_pos hg, Option.bind_eq_bind, Option.bind_some, if_true, writeDirect?_eq]
    · simp only [if_neg hg, Option.bind_eq_bind, Option.bind_some, writeDirect?_eq]
      split <;> rfl
  have hsmall : bs.length ≤ t.capacity := Nat.le_of_not_le hbig
  rw [if_neg hbig, if_neg hbig, h.room?, h.flush?]
  simp only [Option.bind_eq_bind, Option.bind_some]
  by_cases hfull : t.room = 0
  · rw [if_pos hfull, if_pos hfull, gather?_flush hsmall]
    split <;> rfl
  rw [if_neg hfull, if_neg hfull]
  by_cases hroom : t.room < bs.length
  · have hfirst : lf ∉ bs.take t.room := fun hm => hbs (List.mem_of_mem_take hm)
    have htake : (bs.take t.room).length ≤ t.room := List.length_take_le _ _
    have hrest : (bs.drop t.room).length ≤ (t.gather (bs.take t.room)).capacity := by
      rw [List.length_drop]
      exact Nat.le_trans (Nat.sub_le _ _) hsmall
    rw [if_pos hroom, if_pos hroom, slice?_zero_eq_some (Nat.le_of_lt hroom),
      slice?_to_end (Nat.le_of_lt hroom), Option.bind_some,
      gather?_eq_some (h.gathered_add_le htake), Option.bind_some, (h.gather hfirst htake).flush?]
    simp only [Option.bind_some, gather?_flush hrest]
    split <;> rfl
  · rw [if_neg hroom, if_neg hroom, gather?_eq_some (h.gathered_add_le (Nat.not_lt.1 hroom))]
    rfl

theorem Underway.finish? (h : Underway k t s src waiting) {rest : Bytes} (hrest : lf ∉ rest) :
    t.finish? s rest = some (t.finish s rest) := by
  rw [Expander.finish?, Expander.finish, h.flush?, h.room?]
  by_cases hr : rest = []
  · rw [if_pos hr, if_pos hr]
    split <;> rfl
  rw [if_neg hr, if_neg hr]
  by_cases hg : t.gathered = []
  · rw [if_pos hg, if_pos hg, writeDirect?_eq]
  rw [if_neg hg, if_neg hg]
  simp only [Option.bind_eq_bind, Option.bind_some, writeDirect?_eq]
  by_cases hroom : t.room < rest.length
  · rw [if_pos hroom, if_pos hroom]
    split <;> rfl
  · rw [if_neg hroom, if_neg hroom, gather?_eq_some (h.gathered_add_le (Nat.not_lt.1 hroom))]
    exact (h.gather hrest (Nat.not_lt.1 hroom)).flush?

theorem Underway.appendLines? (h : Underway k t s src waiting) {ls : List Bytes}
    (hls : ∀ l ∈ ls, lf ∉ l) : t.appendLines? s ls = some (t.appendLines s ls) := by
  induction ls generalizing t s src waiting with
  | nil => rfl
  | cons l ls ih =>
    have hl : lf ∉ l := hls l List.mem_cons_self
    have hmore : ∀ l' ∈ ls, lf ∉ l' := fun l' hl' => hls l' (List.mem_cons_of_mem l hl')
    have hline : (if l = [] then some (true, t, s) else t.append? s l) =
        some (if l = [] then (true, t, s) else t.append s l) := by
      rw [h.append? hl]
      split <;> rfl
    have hreach : Reaches k (if l = [] then (true, t, s) else t.append s l) (src ++ l) :=
      h.line hl
    rw [Expander.appendLines?, Expander.appendLines, hline, Option.bind_eq_bind, Option.bind_some]
    generalize (if l = [] then (true, t, s) else t.append s l) = r at hreach
    obtain ⟨w, ⟨hok, hw⟩ | ⟨hno, -⟩⟩ := hreach
    · rw [if_pos hok, if_pos hok, hw.appendNewline?, Option.bind_some]
      obtain ⟨w', ⟨hok', hw'⟩ | ⟨hno', -⟩⟩ := hw.appendNewline
      · rw [if_pos hok', ih hw' hmore]
        simp only [hok', if_true]
      · simp only [hno', Bool.false_eq_true, if_false]
        rfl
    · simp only [hno, Bool.false_eq_true, if_false]
      rfl

theorem write?_eq (t : Expander) (hs : k.Took [] s) (src : Bytes) :
    t.write? s src = some (t.write s src) := by
  obtain ⟨hls, hrest⟩ := notMem_lines src
  have hstart := underway_cleared t hs
  obtain ⟨w, hlines⟩ := hstart.appendLines hls
  have hfinish : (if (t.cleared.appendLines s (lines src).1).1 then
        (t.cleared.appendLines s (lines src).1).2.1.finish?
          (t.cleared.appendLines s (lines src).1).2.2 (lines src).2
      else some (t.cleared.appendLines s (lines src).1)) = some (t.written s src) := by
    rw [written]
    rcases hlines with ⟨hok, hw⟩ | ⟨hno, -⟩
    · simp only [hok, if_true, hw.finish? hrest]
    · simp only [hno, Bool.false_eq_true, if_false]
  rw [write?, lines?_eq, Option.bind_eq_bind, Option.bind_some, hstart.appendLines? hls,
    Option.bind_eq_bind, Option.bind_some, hfinish, Option.bind_some, write_eq]
  rfl

/-- A device that counts no more than it was given. -/
def withinSink [WritesWithin σ] : Sink σ where
  Took _ _ := True
  Broke _ := True
  whole {_ s} src _ := by
    obtain ⟨_, -, -, hdone, -⟩ := writeFully_told s src
    rcases hr : writeFully s src with ⟨⟨n, _ | e⟩, s'⟩
    · rw [hr] at hdone
      obtain rfl : n = src.length := hdone.1 rfl
      exact .inl ⟨s', rfl, trivial⟩
    · exact .inr ⟨n, e, s', rfl, trivial⟩

theorem write?_eq_some [WritesWithin σ] (t : Expander) (s : σ) (src : Bytes) :
    t.write? s src = some (t.write s src) := t.write?_eq (k := withinSink) trivial src

end

end Expander

end ByteChannel.Text
