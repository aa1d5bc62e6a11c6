import ByteChannel.Proofs.Device.Reliable
import ByteChannel.Text.Expander

/-!
# Written text is expanded whatever the batches

As long as whole writes to its device succeed, an expander writes the expanded form of its source,
however the source falls into batches, and counts exactly the bytes of the source. What waits in the
batch is always the expanded form of a stretch of the source, the last one dealt with. After the
first write that breaks off the expander writes nothing more, and its count says where in the source
that write was cut. Over a reliable device none breaks off.
-/

namespace ByteChannel.Text

theorem expand_of_notMem {bs : Bytes} (h : lf ∉ bs) : expand bs = bs := by
  induction bs with
  | nil => rfl
  | cons b bs ih =>
    have hb : b ≠ lf := fun hb => h (by simp [hb])
    have hbs : lf ∉ bs := fun hbs => h (List.mem_cons_of_mem b hbs)
    rw [expand, if_neg hb, ih hbs]

theorem expand_eq_nil_iff (bs : Bytes) : expand bs = [] ↔ bs = [] := by
  cases bs with
  | nil => simp [expand]
  | cons b bs => by_cases h : b = lf <;> simp [expand, h]

theorem countNewlines_of_notMem {bs : Bytes} (h : lf ∉ bs) : countNewlines bs = 0 :=
  List.count_eq_zero.2 h

theorem notMem_lines (bs : Bytes) :
    (∀ l ∈ (lines bs).1, lf ∉ l) ∧ lf ∉ (lines bs).2 := by
  induction bs with
  | nil => simp [lines]
  | cons b bs ih =>
    obtain ⟨hls, hrest⟩ := ih
    by_cases h : b = lf
    · simp only [lines, if_pos h]
      refine ⟨?_, hrest⟩
      intro l hl
      rcases List.mem_cons.1 hl with rfl | hl
      · exact List.not_mem_nil
      · exact hls l hl
    · have hb : lf ≠ b := fun hb => h hb.symm
      simp only [lines, if_neg h]
      split
      · refine ⟨fun l hl => absurd hl List.not_mem_nil, ?_⟩
        simp [hb, hrest]
      · next l ls he =>
        refine ⟨?_, hrest⟩
        intro k hk
        rcases List.mem_cons.1 hk with rfl | hk
        · have := hls l (by simp [he])
          simp [hb, this]
        · exact hls k (by simp [he, hk])

/-- What whole writes make of a device: it has taken all of what it was given, or a write broke
off. -/
structure Sink (σ : Type) [Device σ] where
  /-- These bytes were taken since the start. -/
  Took : Bytes → σ → Prop
  Broke : σ → Prop
  whole : ∀ {out s} (src : Bytes), Took out s →
    (∃ s', writeFully s src = (⟨src.length, none⟩, s') ∧ Took (out ++ src) s') ∨
      ∃ k e s', writeFully s src = (⟨k, some e⟩, s') ∧ Broke s'

namespace Expander

variable {σ : Type} [Device σ] {k : Sink σ} {t : Expander} {s : σ} {src waiting : Bytes}
  {r : Bool × Expander × σ}

/-- The expander has dealt with `src` since the start; the last part of it, `waiting`, is in the
batch. -/
structure Underway (k : Sink σ) (t : Expander) (s : σ) (src waiting : Bytes) : Prop where
  fits : t.gathered.length ≤ t.capacity
  batch_eq : t.batch = expand waiting
  newlines_eq : t.newlines = countNewlines waiting
  no_error : t.error = none
  sent : ∃ sent, sent ++ waiting = src ∧ sent.length = t.taken ∧ k.Took (expand sent) s

/-- Of the expanded form of `src`, `out` holds the first `done` bytes of `src`, and of the next one
at most the carriage return that was put in before it. -/
def CutAt (src out : Bytes) (done : Nat) : Prop :=
  ∃ front a back, src = front ++ a :: back ∧ front.length = done ∧
    (out = expand front ∨ a = lf ∧ out = expand front ++ [cr])

theorem CutAt.append {out : Bytes} {done : Nat} (h : CutAt src out done) (more : Bytes) :
    CutAt (src ++ more) out done := by
  obtain ⟨front, a, back, rfl, hd, hout⟩ := h
  exact ⟨front, a, back ++ more, by simp, hd, hout⟩

/-- A write broke off, and the expander's count says where in `src`. -/
def Stopped (k : Sink σ) (t : Expander) (s : σ) (src : Bytes) : Prop :=
  ∃ out s₀ piece n e, k.Took out s₀ ∧ writeFully s₀ piece = (⟨n, some e⟩, s) ∧
    t.error = some e ∧ CutAt src (out ++ piece.take n) t.taken

theorem Stopped.append (h : Stopped k t s src) (more : Bytes) : Stopped k t s (src ++ more) := by
  obtain ⟨out, s₀, piece, n, e, ho, hr, he, hcut⟩ := h
  exact ⟨out, s₀, piece, n, e, ho, hr, he, hcut.append more⟩

theorem Stopped.broke (h : Stopped k t s src) : k.Broke s := by
  obtain ⟨out, s₀, piece, n, e, ho, hr, -, -⟩ := h
  rcases k.whole piece ho with ⟨s', hr', -⟩ | ⟨n', e', s', hr', hbroke⟩
  · rw [hr] at hr'
    cases hr'
  · rw [hr] at hr'
    cases hr'
    exact hbroke

/-- A step that leaves the expander where all of `src` is dealt with, or stops it. -/
def Passes (k : Sink σ) (r : Bool × Expander × σ) (src waiting : Bytes) : Prop :=
  (r.1 = true ∧ Underway k r.2.1 r.2.2 src waiting) ∨
    (r.1 = false ∧ Stopped k r.2.1 r.2.2 src)

def Reaches (k : Sink σ) (r : Bool × Expander × σ) (src : Bytes) : Prop :=
  ∃ waiting, Passes k r src waiting

theorem underway_cleared (t : Expander) (hs : k.Took [] s) : Underway k t.cleared s [] [] where
  fits := Nat.zero_le _
  batch_eq := rfl
  newlines_eq := rfl
  no_error := rfl
  sent := ⟨[], rfl, rfl, hs⟩

theorem Underway.passes (h : Underway k t s src waiting) : Passes k (true, t, s) src waiting :=
  .inl ⟨rfl, h⟩

/-- A step that comes after another one is not made where that one stopped. -/
theorem Passes.bind {more waiting' : Bytes} {next : Bool × Expander × σ}
    (h : Passes k r src waiting)
    (hnext : Underway k r.2.1 r.2.2 src waiting → Passes k next (src ++ more) waiting') :
    Passes k (if r.1 then next else r) (src ++ more) waiting' := by
  rcases h with ⟨hok, hw⟩ | ⟨hno, hstop⟩
  · rw [if_pos hok]
    exact hnext hw
  · rw [hno]
    exact .inr ⟨hno, hstop.append more⟩

theorem Reaches.bind {more : Bytes} {next : Bool × Expander × σ} (h : Reaches k r src)
    (hnext : ∀ waiting, Underway k r.2.1 r.2.2 src waiting → Reaches k next (src ++ more)) :
    Reaches k (if r.1 then next else r) (src ++ more) := by
  obtain ⟨waiting, ⟨hok, hw⟩ | ⟨hno, hstop⟩⟩ := h
  · rw [if_pos hok]
    exact hnext waiting hw
  · rw [hno]
    exact ⟨waiting, .inr ⟨hno, hstop.append more⟩⟩

theorem gathered_eq_nil_iff (t : Expander) : t.gathered = [] ↔ t.batch = [] := by
  simp [batch]

theorem Underway.waiting_eq_nil (h : Underway k t s src waiting) (hg : t.gathered = []) :
    waiting = [] := by
  rw [gathered_eq_nil_iff, h.batch_eq, expand_eq_nil_iff] at hg
  exact hg

theorem length_batch (t : Expander) : t.batch.length = t.gathered.length := by simp [batch]

/-- What was put in by a batch that was not all taken: one carriage return for each line end that is
out, and one if its line feed comes next. -/
theorem Underway.insertedWithin_cut (h : Underway k t s src waiting) {n : Nat}
    (hn : n < t.batch.length) :
    ∃ front a back, waiting = front ++ a :: back ∧ t.insertedWithin n + front.length = n ∧
      countNewlines (t.batch.drop n) ≤ t.newlines ∧
      (t.batch.take n = expand front ∨ a = lf ∧ t.batch.take n = expand front ++ [cr]) := by
  have hins : t.insertedWithin n = t.newlines - countNewlines (t.batch.drop n) +
      if 0 < n ∧ (t.batch.drop n).head? = some lf then 1 else 0 :=
    if_neg fun he => by rw [length_batch] at hn; omega
  have hlen : (t.batch.take n).length = n := List.length_take_of_le (Nat.le_of_lt hn)
  have hcut : expand waiting = t.batch.take n ++ t.batch.drop n := by
    rw [List.take_append_drop, h.batch_eq]
  obtain ⟨front, rest, rfl, ⟨hfront, hback⟩ | ⟨back, rfl, hfront, hback⟩⟩ := expand_eq_append hcut
  · have hnewlines := h.newlines_eq
    rw [countNewlines_append] at hnewlines
    rw [hback, countNewlines_expand] at hins ⊢
    rw [if_neg fun hc => head?_expand_ne rest hc.2] at hins
    rw [hfront, length_expand] at hlen
    have hne : rest ≠ [] := by
      rintro rfl
      have hnil : (t.batch.drop n).length = 0 := by rw [hback]; rfl
      rw [List.length_drop] at hnil
      omega
    obtain ⟨a, back, rfl⟩ := List.exists_cons_of_ne_nil hne
    exact ⟨front, a, back, rfl, by omega, by omega, .inl hfront⟩
  · have hnewlines := h.newlines_eq
    have hcount : countNewlines (lf :: back) = countNewlines back + 1 := List.count_cons_self
    have hcount' : countNewlines (lf :: expand back) = countNewlines back + 1 := by
      rw [← countNewlines_expand back]
      exact List.count_cons_self
    rw [countNewlines_append, hcount] at hnewlines
    rw [hback, hcount'] at hins ⊢
    rw [hfront, List.length_append, length_expand, List.length_singleton] at hlen
    rw [if_pos ⟨by omega, List.head?_cons⟩] at hins
    exact ⟨front, lf, back, rfl, by omega, by omega, .inr ⟨rfl, hfront⟩⟩

theorem Underway.insertedWithin_whole (h : Underway k t s src waiting) :
    t.insertedWithin t.batch.length + waiting.length = t.batch.length := by
  have hins : t.insertedWithin t.batch.length = t.newlines := if_pos t.length_batch
  have hlen := length_expand waiting
  rw [hins, h.newlines_eq, h.batch_eq, hlen, Nat.add_comm]

theorem Underway.flush (h : Underway k t s src waiting) : Passes k (t.flush s) src [] := by
  obtain ⟨sent, hsrc, htaken, htook⟩ := h.sent
  obtain ⟨s', hr, hs'⟩ | ⟨n, e, s', hr, hs'⟩ := k.whole t.batch htook
  · have hins := h.insertedWithin_whole
    rw [Expander.flush, hr]
    refine .inl ⟨rfl, Nat.zero_le _, rfl, rfl, rfl, src, List.append_nil src, ?_, ?_⟩
    · rw [← hsrc, List.length_append, htaken]
      dsimp only
      omega
    · rw [← hsrc, expand_append, ← h.batch_eq]
      exact hs'
  · have hlt : n < t.batch.length := by
      have := done_writeFully_lt s t.batch (by rw [hr]; exact Option.some_ne_none e)
      rwa [hr] at this
    obtain ⟨front, a, back, hwaiting, hins, -, hout⟩ := h.insertedWithin_cut hlt
    rw [Expander.flush, hr]
    refine .inr ⟨rfl, expand sent, s, t.batch, n, e, htook, hr, rfl, sent ++ front, a, back, ?_, ?_,
      ?_⟩
    · rw [← hsrc, hwaiting, List.append_assoc]
    · rw [List.length_append, htaken]
      dsimp only
      omega
    · rw [expand_append, List.append_assoc]
      exact hout.imp (congrArg _) (.imp_right (congrArg _))

theorem length_gathered_gather (t : Expander) (bs : Bytes) :
    (t.gather bs).gathered.length = t.gathered.length + bs.length := by
  rw [← length_batch, batch_gather, List.length_append, length_batch]

/-- The room that is counted is there. -/
theorem Underway.gathered_add_le (h : Underway k t s src waiting) {n : Nat} (hn : n ≤ t.room) :
    t.gathered.length + n ≤ t.capacity := by
  have hfits := h.fits
  rw [t.room_eq] at hn
  omega

theorem Underway.gather (h : Underway k t s src waiting) {bs : Bytes} (hbs : lf ∉ bs)
    (hroom : bs.length ≤ t.room) :
    Underway k (t.gather bs) s (src ++ bs) (waiting ++ bs) := by
  obtain ⟨sent, hsrc, htaken, htook⟩ := h.sent
  refine ⟨?_, ?_, ?_, h.no_error, sent, ?_, htaken, htook⟩
  · rw [length_gathered_gather]
    exact h.gathered_add_le hroom
  · rw [batch_gather, h.batch_eq, expand_append, expand_of_notMem hbs]
  · rw [countNewlines_append, countNewlines_of_notMem hbs]
    exact h.newlines_eq
  · rw [← hsrc, List.append_assoc]

theorem Underway.gatherNewline (h : Underway k t s src waiting) (hroom : 2 ≤ t.room) :
    Underway k { t.gather [cr, lf] with newlines := t.newlines + 1 } s (src ++ [lf])
      (waiting ++ [lf]) := by
  obtain ⟨sent, hsrc, htaken, htook⟩ := h.sent
  have he : expand [lf] = [cr, lf] := rfl
  refine ⟨?_, ?_, ?_, h.no_error, sent, ?_, htaken, htook⟩
  · exact Nat.le_trans (Nat.le_of_eq (length_gathered_gather t [cr, lf])) (h.gathered_add_le hroom)
  · rw [expand_append, he, ← h.batch_eq]
    exact batch_gather t [cr, lf]
  · rw [countNewlines_append, ← h.newlines_eq]
    rfl
  · rw [← hsrc, List.append_assoc]

theorem Underway.writeDirect (h : Underway k t s src []) {bs : Bytes} (hbs : lf ∉ bs) :
    Passes k (t.writeDirect s bs) (src ++ bs) [] := by
  obtain ⟨sent, hsrc, htaken, htook⟩ := h.sent
  rw [List.append_nil] at hsrc
  subst hsrc
  obtain ⟨s', hr, hs'⟩ | ⟨n, e, s', hr, hs'⟩ := k.whole bs htook
  · rw [Expander.writeDirect, hr]
    refine .inl ⟨rfl, h.fits, h.batch_eq, h.newlines_eq, rfl, sent ++ bs, List.append_nil _, ?_, ?_⟩
    · rw [List.length_append, htaken]
    · rw [expand_append, expand_of_notMem hbs]
      exact hs'
  · have hlt : n < bs.length := by
      have := done_writeFully_lt s bs (by rw [hr]; exact Option.some_ne_none e)
      rwa [hr] at this
    have htake : lf ∉ bs.take n := fun hm => hbs (List.mem_of_mem_take hm)
    rw [Expander.writeDirect, hr]
    refine .inr ⟨rfl, expand sent, s, bs, n, e, htook, hr, rfl, sent ++ bs.take n, bs[n],
      bs.drop (n + 1), ?_, ?_, .inl ?_⟩
    · rw [List.append_assoc, List.getElem_cons_drop, List.take_append_drop]
    · rw [List.length_append, htaken, List.length_take_of_le (Nat.le_of_lt hlt)]
    · rw [expand_append, expand_of_notMem htake]

/-- Where a line end does not fit, the batch is written out and has room for it. -/
theorem two_le_room (t : Expander) (s : σ) :
    2 ≤ (if t.room < 2 then t.flush s else (true, t, s)).2.1.room := by
  by_cases hroom : t.room < 2
  · rw [if_pos hroom]
    exact t.two_le_capacity
  · rw [if_neg hroom]
    exact Nat.not_lt.1 hroom

theorem Underway.makeRoom (h : Underway k t s src waiting) :
    Reaches k (if t.room < 2 then t.flush s else (true, t, s)) src := by
  by_cases hroom : t.room < 2
  · rw [if_pos hroom]
    exact ⟨[], h.flush⟩
  · rw [if_neg hroom]
    exact ⟨waiting, h.passes⟩

theorem Underway.appendNewline (h : Underway k t s src waiting) :
    Reaches k (t.appendNewline s) (src ++ [lf]) :=
  h.makeRoom.bind fun _ hw => ⟨_, (hw.gatherNewline (t.two_le_room s)).passes⟩

theorem Underway.append (h : Underway k t s src waiting) {bs : Bytes} (hbs : lf ∉ bs) :
    Reaches k (t.append s bs) (src ++ bs) := by
  rw [Expander.append]
  by_cases hbig : t.capacity ≤ bs.length
  · rw [if_pos hbig]
    have hempty : Passes k (if t.gathered = [] then (true, t, s) else t.flush s) src [] := by
      by_cases hg : t.gathered = []
      · have hw := h.waiting_eq_nil hg
        subst hw
        rw [if_pos hg]
        exact h.passes
      · rw [if_neg hg]
        exact h.flush
    exact ⟨[], hempty.bind fun hw => hw.writeDirect hbs⟩
  · rw [if_neg hbig]
    by_cases hfull : t.room = 0
    · have hempty : bs.length ≤ (t.flush s).2.1.room := Nat.le_of_not_le hbig
      rw [if_pos hfull]
      exact ⟨_, h.flush.bind fun hw => (hw.gather hbs hempty).passes⟩
    · rw [if_neg hfull]
      by_cases hroom : t.room < bs.length
      · have hfirst : lf ∉ bs.take t.room := fun hm => hbs (List.mem_of_mem_take hm)
        have hsecond : lf ∉ bs.drop t.room := fun hm => hbs (List.mem_of_mem_drop hm)
        have hall : src ++ bs = src ++ bs.take t.room ++ bs.drop t.room := by
          rw [List.append_assoc, List.take_append_drop]
        have hempty : (bs.drop t.room).length ≤
            ((t.gather (bs.take t.room)).flush s).2.1.room := by
          rw [List.length_drop]
          exact Nat.le_trans (Nat.sub_le _ _) (Nat.le_of_not_le hbig)
        rw [if_pos hroom, hall]
        exact ⟨_, (h.gather hfirst (List.length_take_le _ _)).flush.bind fun hw =>
          (hw.gather hsecond hempty).passes⟩
      · rw [if_neg hroom]
        exact ⟨_, (h.gather hbs (Nat.not_lt.1 hroom)).passes⟩

theorem Underway.line (h : Underway k t s src waiting) {l : Bytes} (hl : lf ∉ l) :
    Reaches k (if l = [] then (true, t, s) else t.append s l) (src ++ l) := by
  by_cases hn : l = []
  · rw [if_pos hn, hn, List.append_nil]
    exact ⟨waiting, h.passes⟩
  · rw [if_neg hn]
    exact h.append hl

theorem Underway.appendLines (h : Underway k t s src waiting) {ls : List Bytes}
    (hls : ∀ l ∈ ls, lf ∉ l) :
    Reaches k (t.appendLines s ls) (src ++ ls.flatMap (· ++ [lf])) := by
  induction ls generalizing t s src waiting with
  | nil =>
    rw [List.flatMap_nil, List.append_nil]
    exact ⟨waiting, h.passes⟩
  | cons l ls ih =>
    have hl : lf ∉ l := hls l List.mem_cons_self
    have hmore : ∀ l' ∈ ls, lf ∉ l' := fun l' hl' => hls l' (List.mem_cons_of_mem l hl')
    rw [List.flatMap_cons, List.append_assoc l, ← List.append_assoc src l]
    refine (h.line hl).bind fun _ hw => ?_
    rw [← List.append_assoc]
    exact hw.appendNewline.bind fun _ hw' => ih hw' hmore

theorem Underway.finish (h : Underway k t s src waiting) {rest : Bytes} (hrest : lf ∉ rest) :
    Passes k (t.finish s rest) (src ++ rest) [] := by
  rw [Expander.finish]
  by_cases hr : rest = []
  · rw [if_pos hr, hr, List.append_nil]
    by_cases hg : t.gathered = []
    · have hw := h.waiting_eq_nil hg
      subst hw
      rw [if_pos hg]
      exact h.passes
    · rw [if_neg hg]
      exact h.flush
  · rw [if_neg hr]
    by_cases hg : t.gathered = []
    · have hw := h.waiting_eq_nil hg
      subst hw
      rw [if_pos hg]
      exact h.writeDirect hrest
    · rw [if_neg hg]
      by_cases hroom : t.room < rest.length
      · rw [if_pos hroom]
        exact h.flush.bind fun hw => hw.writeDirect hrest
      · rw [if_neg hroom]
        exact (h.gather hrest (Nat.not_lt.1 hroom)).flush

/-- Where a write ends, before the expander reports and is emptied. -/
def written (t : Expander) (s : σ) (src : Bytes) : Bool × Expander × σ :=
  let r := t.cleared.appendLines s (lines src).1
  if r.1 then r.2.1.finish r.2.2 (lines src).2 else r

theorem write_eq (t : Expander) (s : σ) (src : Bytes) :
    t.write s src = (⟨(t.written s src).2.1.taken, (t.written s src).2.1.error⟩,
      { (t.written s src).2.1.emptied with error := none }, (t.written s src).2.2) := rfl

theorem written_passes (t : Expander) (hs : k.Took [] s) (src : Bytes) :
    Passes k (t.written s src) src [] := by
  obtain ⟨hls, hrest⟩ := notMem_lines src
  obtain ⟨_, hlines⟩ := (underway_cleared t hs).appendLines hls
  have hall := hlines.bind fun hw => hw.finish hrest
  rwa [List.nil_append, lines_append] at hall

theorem Underway.taken_all (h : Underway k t s src []) :
    t.taken = src.length ∧ k.Took (expand src) s := by
  obtain ⟨sent, hsrc, htaken, htook⟩ := h.sent
  rw [List.append_nil] at hsrc
  subst hsrc
  exact ⟨htaken.symm, htook⟩

/-- All of a text is taken, and what reaches the device is its expanded form; or a write breaks off
and the expander reports it. -/
theorem write_whole (t : Expander) (hs : k.Took [] s) (src : Bytes) :
    (∃ t' s', t.write s src = (⟨src.length, none⟩, t', s') ∧ k.Took (expand src) s') ∨
      ∃ n e t' s', t.write s src = (⟨n, some e⟩, t', s') ∧ k.Broke s' := by
  rw [write_eq]
  rcases t.written_passes hs src with ⟨-, hw⟩ | ⟨-, hstop⟩
  · obtain ⟨htaken, htook⟩ := hw.taken_all
    rw [htaken, hw.no_error]
    exact .inl ⟨_, _, rfl, htook⟩
  · have hbroke := hstop.broke
    obtain ⟨-, -, -, -, e, -, -, he, -⟩ := hstop
    rw [he]
    exact .inr ⟨_, e, _, _, rfl, hbroke⟩

/-! ## Over a reliable device -/

open Reliable

variable [Reliable σ] {f : File}

/-- A device that showed `f` at the start. -/
def reliableSink (f : File) : Sink σ where
  Took out s := Shows s (f.write out)
  Broke _ := False
  whole {out s} src hs := by
    obtain ⟨s', hr, hs'⟩ := writeFully_shows hs src
    rw [File.write_append] at hs'
    exact .inl ⟨s', hr, hs'⟩

theorem write_shows (t : Expander) (hs : Shows s f) (src : Bytes) :
    ∃ t' s', t.write s src = (⟨src.length, none⟩, t', s') ∧ Shows s' (f.write (expand src)) := by
  have hstart : Sink.Took (reliableSink f) [] s := by
    change Shows s (f.write [])
    rwa [File.write_nil]
  obtain hw | ⟨_, _, _, _, _, hbroke⟩ := t.write_whole hstart src
  · exact hw
  · exact hbroke.elim

end Expander

end ByteChannel.Text
