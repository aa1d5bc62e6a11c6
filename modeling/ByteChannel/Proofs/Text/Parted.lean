import ByteChannel.Proofs.Device.Along
import ByteChannel.Proofs.Device.Faltering
import ByteChannel.Proofs.Text.Settled

/-!
# Where failed reads part line ends

A collapsed read that reports no failure delivers what the next stretch of the file collapses to, as
over a device that never fails, but with one exception: where the lookahead behind a carriage return
fails, the stretch may end inside a line end, and nothing is reported. Every such place costs the
device a failed read.
-/

namespace ByteChannel.Text

/-! ## Texts with parted line ends -/

/-- `text` is what `raw` collapses to if at most `n` of its line ends are parted, which leaves them
two bytes. -/
inductive Parted : Nat → Bytes → Bytes → Prop
  | whole (n : Nat) (raw : Bytes) : Parted n raw (collapse raw)
  | part {n : Nat} {front back text : Bytes} (hpart : ¬ Whole front back)
    (h : Parted n back text) : Parted (n + 1) (front ++ back) (collapse front ++ text)

namespace Parted

theorem mono {m n : Nat} {raw text : Bytes} (h : Parted m raw text) (hle : m ≤ n) :
    Parted n raw text := by
  induction h generalizing n with
  | whole m raw => exact .whole n raw
  | part hpart h ih =>
    obtain ⟨k, rfl⟩ : ∃ k, n = k + 1 := ⟨n - 1, by omega⟩
    exact .part hpart (ih (by omega))

theorem zero_iff {raw text : Bytes} : Parted 0 raw text ↔ text = collapse raw := by
  refine ⟨fun h => ?_, fun h => h ▸ .whole 0 raw⟩
  cases h with
  | whole => rfl

theorem append {n : Nat} {front back text : Bytes} (h : Parted n back text)
    (hw : Whole front back) : Parted n (front ++ back) (collapse front ++ text) := by
  cases h with
  | whole n back =>
    rw [← hw]
    exact .whole n _
  | @part n mid back text hpart h =>
    have hmid : collapse (front ++ mid) = collapse front ++ collapse mid := hw.of_append
    rw [← List.append_assoc, ← List.append_assoc, ← hmid]
    refine .part (fun hw' => hpart ?_) h
    rw [Whole, ← List.append_assoc, hw', hmid, List.append_assoc] at hw
    exact (List.append_cancel_left hw).symm

end Parted

/-! ## Reading -/

open Faltering

variable {σ : Type} [Device σ] {s : Tallied σ} {f : File}

theorem along_failures : Device.Along fun s s' : Tallied σ => s.failures ≤ s'.failures where
  refl _ := Nat.le_refl _
  trans := Nat.le_trans
  read _ _ := Nat.le_add_right _ _
  seek _ _ := Nat.le_refl _

variable [Faltering σ]

/-- If it reports no failure, an intake collapses `front` with the next stretch of the file, and
ends that stretch between line ends unless the device has failed more than `n` times. -/
def Covers (r : Intake × Tallied σ) (front : Bytes) (f : File) (n : Nat) : Prop :=
  r.1.error = none → ∃ k ≤ f.rest.length, r.1.bytes = collapse (front ++ f.rest.take k) ∧
    Shows r.2.device (f.advance k) ∧
    (¬ Whole (front ++ f.rest.take k) (f.rest.drop k) → n < r.2.failures)

theorem Covers.mono {r : Intake × Tallied σ} {front : Bytes} {m n : Nat} (h : Covers r front f n)
    (hle : m ≤ n) : Covers r front f m := by
  intro herror
  obtain ⟨k, hk, hr, hs, hpart⟩ := h herror
  exact ⟨k, hk, hr, hs, fun hno => Nat.lt_of_le_of_lt hle (hpart hno)⟩

theorem covers_here {front bs : Bytes} {error : Option IoError} {n : Nat}
    (hs : Shows s.device f) (hb : collapse front = bs)
    (hw : error = none → ¬ Whole front f.rest → n < s.failures) :
    Covers (⟨bs, error⟩, s) front f n := fun herror =>
  ⟨0, Nat.zero_le _, by simp [hb], hs, by simpa using hw herror⟩

theorem covers_at_end {b : UInt8} {error : Option IoError} {n : Nat} (hs : Shows s.device f)
    (hend : error = none → f.rest = []) : Covers (⟨[b], error⟩, s) [b] f n := by
  refine covers_here hs (collapse_singleton b) fun herror hno => absurd ?_ hno
  rw [hend herror]
  exact whole_nil_right _

theorem Covers.pair {r : Intake × Tallied σ} {front : Bytes} {n : Nat} (h : Covers r front f n) :
    Covers (keep lf r) (cr :: lf :: front) f n := by
  intro herror
  obtain ⟨k, hk, hr, hs, hpart⟩ := h herror
  refine ⟨k, hk, ?_, hs, fun hno => hpart fun hw => hno hw.pair⟩
  rw [keep, hr, List.cons_append, List.cons_append, collapse_pair]

theorem Covers.cons {r : Intake × Tallied σ} {b a : UInt8} {front : Bytes} {n : Nat}
    (h : Covers r (a :: front) f n) (hba : ¬ (b = cr ∧ a = lf)) :
    Covers (keep b r) (b :: a :: front) f n := by
  intro herror
  obtain ⟨k, hk, hr, hs, hpart⟩ := h herror
  have hh (more : Bytes) : ¬ (b = cr ∧ (a :: more).head? = some lf) := by simpa using hba
  refine ⟨k, hk, ?_, hs, fun hno => hpart fun hw => hno (hw.cons hba)⟩
  simp only [keep, hr, List.cons_append]
  rw [collapse_cons_of_not (hh _)]

/-- What was read from the file counts to its stretch. -/
theorem covers_of_advance {r : Intake × Tallied σ} {front bs : Bytes} {n : Nat}
    (hp : bs <+: f.rest) (h : Covers r (front ++ bs) (f.advance bs.length) n) :
    Covers r front f n := by
  intro herror
  obtain ⟨k, hk, hr, hs, hpart⟩ := h herror
  obtain ⟨more, hmore⟩ := hp
  have htake : bs ++ more.take k = (bs ++ more).take (bs.length + k) := by
    rw [List.take_length_add_append]
  rw [File.rest_advance, ← hmore, List.drop_left] at hk hr hpart
  rw [List.append_assoc, htake] at hr hpart
  rw [File.advance_advance] at hs
  refine ⟨bs.length + k, ?_, by rw [hr, hmore], hs, ?_⟩
  · rw [← hmore, List.length_append]
    omega
  · rw [← hmore, List.drop_length_add_append]
    exact hpart

/-- A carriage return in the last place becomes a line end or stays, as the file goes on. Where the
lookahead fails it stays all the same. -/
theorem covers_settleReturn (hs : Shows s.device f) (hlen : f.bytes.length ≤ top σ)
    (error : Option IoError) :
    Covers (⟨[(settleReturn s).1], error⟩, (settleReturn s).2) [cr] f s.failures := by
  obtain ⟨hp, hs₁, hwhole, hfailed⟩ := readFully_fetches hs 1
  rcases hr : readFully s 1 with ⟨⟨_ | ⟨a, more⟩, error₁⟩, s₁⟩
  · rw [hr] at hs₁ hwhole hfailed
    have hd : settleReturn s = (cr, s₁) := by simp [settleReturn, hr]
    rw [hd]
    cases error₁ with
    | none =>
      obtain ⟨-, hone | hend⟩ := hwhole rfl
      · cases hone
      · exact covers_at_end hs₁ fun _ => hend
    | some e =>
      obtain ⟨hmore, -⟩ := hfailed (Option.some_ne_none e)
      refine covers_here hs₁ (collapse_singleton cr) fun _ _ => ?_
      rw [show s₁.failures = s.failures + 1 from hmore]
      exact Nat.lt_succ_self _
  · rw [hr] at hp hs₁ hwhole hfailed
    cases error₁ with
    | some e =>
      obtain ⟨-, hlt⟩ := hfailed (Option.some_ne_none e)
      simp only [List.length_cons] at hlt
      omega
    | none =>
      have hl : (a :: more).length ≤ 1 := by
        have := length_bytes_readFully_le s 1
        rwa [hr] at this
      obtain rfl : more = [] := List.length_eq_zero_iff.1 (by simpa using hl)
      by_cases ha : a = lf
      · have hd : settleReturn s = (lf, s₁) := by simp [settleReturn, hr, ha]
        rw [hd]
        subst ha
        refine covers_of_advance hp (covers_here hs₁ rfl fun _ hno => absurd ?_ hno)
        exact (whole_nil _).pair
      · have hpos : f.pos < f.bytes.length := by
          have := hp.length_le
          rw [File.length_rest] at this
          simp only [List.length_cons, List.length_nil] at this
          omega
        obtain ⟨s₂, hb, hs₂, -⟩ := seek_back_shows hs₁ (n := 1) (by simp) (by simp; omega)
        have hd : settleReturn s = (cr, s₂) := by
          have hb' : Device.seek s₁ (.current (-1)) = (.ok _, s₂) := hb
          simp [settleReturn, hr, ha, hb']
        rw [hd]
        have hf : (f.advance 1).back 1 = f := rfl
        refine covers_here (hf ▸ hs₂) (collapse_singleton cr) fun _ hno => absurd ?_ hno
        obtain ⟨more, hmore⟩ := hp
        rw [← hmore]
        exact whole_singleton (by simp [ha])

/-- A whole read that comes short without a failure has come to the end. -/
theorem rest_of_fetches {r : Intake × Tallied σ} {n : Nat} (h : Fetches r s f n)
    (hend : (r.1.error.isSome || r.1.bytes.length != n) = true) (error : Option IoError)
    (hnone : error.or r.1.error = none) : (f.advance r.1.bytes.length).rest = [] := by
  obtain ⟨-, hnone⟩ := Option.or_eq_none_iff.1 hnone
  rw [hnone, Option.isSome_none, Bool.false_or, bne_iff_ne] at hend
  exact (h.whole hnone).2.resolve_left hend

theorem collapseRest_covers (s : Tallied σ) (atEnd : Bool) (error : Option IoError) (rest : Bytes)
    (room : Nat) : ∀ {f : File}, Shows s.device f → f.bytes.length ≤ top σ →
      (atEnd = true → error = none → f.rest = []) → ∀ n ≤ s.failures,
        Covers (collapseRest s atEnd error rest room) rest f n := by
  fun_induction collapseRest s atEnd error rest room with
  | case1 =>
    intro f hs hlen hend n hn
    exact covers_here hs rfl fun _ hno => absurd (whole_nil _) hno
  | case2 s error room b =>
    intro f hs hlen hend n hn
    exact covers_at_end hs (hend rfl)
  | case3 s atEnd error h =>
    intro f hs hlen hend n hn
    exact (covers_settleReturn hs hlen error).mono hn
  | case4 s atEnd error b h hb =>
    intro f hs hlen hend n hn
    exact covers_here hs (collapse_singleton b) fun _ hno =>
      absurd (whole_singleton fun hc => hb hc.1) hno
  | case5 s atEnd error room b h hroom r error' =>
    rename_i hr
    intro f hs hlen hend n hn
    have hfetch : Fetches r s f room := readFully_fetches hs room
    have hs₁ : Shows r.2.device f := by
      have := hfetch.shows
      rwa [hr] at this
    apply covers_at_end hs₁
    intro hnone
    have hshort : (r.1.error.isSome || r.1.bytes.length != room) = true := by
      rw [hr, List.length_nil, bne_iff_ne.2 (Ne.symm hroom), Bool.or_true]
    have hrest := rest_of_fetches hfetch hshort error hnone
    rwa [hr] at hrest
  | case6 s atEnd error room b h hroom r error' atEnd' a more hr hba =>
    rename_i ih
    intro f hs hlen hend n hn
    have hfetch : Fetches r s f room := readFully_fetches hs room
    have hi := ih hfetch.shows hlen (fun hshort => rest_of_fetches hfetch hshort error) n
      (Nat.le_trans hn (along_failures.readFully s room))
    apply covers_of_advance hfetch.isPrefix
    rw [hr] at hi ⊢
    rw [hba.1, hba.2]
    exact hi.pair
  | case7 s atEnd error room b h hroom r error' atEnd' a more hr hba =>
    rename_i ih
    intro f hs hlen hend n hn
    have hfetch : Fetches r s f room := readFully_fetches hs room
    have hi := ih hfetch.shows hlen (fun hshort => rest_of_fetches hfetch hshort error) n
      (Nat.le_trans hn (along_failures.readFully s room))
    apply covers_of_advance hfetch.isPrefix
    rw [hr] at hi ⊢
    exact hi.cons hba
  | case8 s atEnd error room b a more hba ih =>
    intro f hs hlen hend n hn
    rw [hba.1, hba.2]
    exact (ih hs hlen hend n hn).pair
  | case9 s atEnd error room b a more hba ih =>
    intro f hs hlen hend n hn
    exact (ih hs hlen hend n hn).cons hba

/-- Collapsed input that reports no failure, with a parted line end at its end only where a read has
failed. -/
theorem readCollapsed_covers (hs : Shows s.device f) (hlen : f.bytes.length ≤ top σ) (n : Nat) :
    Covers (readCollapsed s n) [] f s.failures := by
  have hfetch := readFully_fetches hs n
  apply covers_of_advance hfetch.isPrefix
  rw [List.nil_append]
  exact collapseRest_covers _ _ _ _ 0 hfetch.shows hlen
    (fun hshort => rest_of_fetches hfetch hshort none) _ (along_failures.readFully s n)

end ByteChannel.Text
