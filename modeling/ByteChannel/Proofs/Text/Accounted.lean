import Mathlib
import ByteChannel.Proofs.Device.Received
import ByteChannel.Proofs.Text.InBatch

/-!
# An expander's count is exact

Wherever the device stops, what it received is the start of the expanded text, and the count is the
largest number of bytes of the source whose expanded form lies in it. What a write does depends on
nothing that an earlier one left.
-/

namespace ByteChannel.Text.Expander

/-! ## One write after another -/

theorem capacity_ite {σ : Type} {p : Prop} [Decidable p] {n : Nat} {r r' : Bool × Expander × σ}
    (h : r.2.1.capacity = n) (h' : r'.2.1.capacity = n) :
    (if p then r else r').2.1.capacity = n := by
  split
  · exact h
  · exact h'

section

variable {σ : Type} [Device σ]

theorem capacity_appendNewline (t : Expander) (s : σ) :
    (t.appendNewline s).2.1.capacity = t.capacity := by
  have hroom : (if t.room < 2 then t.flush s else (true, t, s)).2.1.capacity = t.capacity :=
    capacity_ite rfl rfl
  exact capacity_ite hroom hroom

theorem capacity_append (t : Expander) (s : σ) (bs : Bytes) :
    (t.append s bs).2.1.capacity = t.capacity := by
  have hempty : (if t.gathered = [] then (true, t, s) else t.flush s).2.1.capacity = t.capacity :=
    capacity_ite rfl rfl
  apply capacity_ite
  · exact capacity_ite hempty hempty
  · apply capacity_ite
    · exact capacity_ite rfl rfl
    · exact capacity_ite (capacity_ite rfl rfl) rfl

theorem capacity_appendLines (t : Expander) (s : σ) (ls : List Bytes) :
    (t.appendLines s ls).2.1.capacity = t.capacity := by
  induction ls generalizing t s with
  | nil => rfl
  | cons l ls ih =>
    have hline : (if l = [] then (true, t, s) else t.append s l).2.1.capacity = t.capacity :=
      capacity_ite rfl (capacity_append t s l)
    have hnewline := (capacity_appendNewline (if l = [] then (true, t, s) else t.append s l).2.1
      (if l = [] then (true, t, s) else t.append s l).2.2).trans hline
    apply capacity_ite
    · exact capacity_ite ((ih _ _).trans hnewline) hnewline
    · exact hline

theorem capacity_finish (t : Expander) (s : σ) (rest : Bytes) :
    (t.finish s rest).2.1.capacity = t.capacity := by
  apply capacity_ite
  · exact capacity_ite rfl rfl
  · apply capacity_ite rfl
    exact capacity_ite (capacity_ite rfl rfl) rfl

theorem capacity_write (t : Expander) (s : σ) (src : Bytes) :
    (t.write s src).2.1.capacity = t.capacity := by
  have hlines : (t.cleared.appendLines s (lines src).1).2.1.capacity = t.capacity :=
    capacity_appendLines t.cleared s (lines src).1
  change (t.written s src).2.1.capacity = t.capacity
  exact capacity_ite ((capacity_finish _ _ _).trans hlines) hlines

/-- A write starts from nothing but the capacity. -/
theorem write_congr {t t' : Expander} (h : t.capacity = t'.capacity) (s : σ) (src : Bytes) :
    t.write s src = t'.write s src := by
  have hcleared : t.cleared = t'.cleared := by
    change (⟨t.capacity, t.two_le_capacity, [], t.capacity, rfl, 0, 0, none⟩ : Expander) =
      ⟨t'.capacity, t'.two_le_capacity, [], t'.capacity, rfl, 0, 0, none⟩
    congr 1
  rw [write, write, hcleared]

/-- What earlier writes leave, each to whatever its device had become. -/
def after (t : Expander) : List (σ × Bytes) → Expander
  | [] => t
  | c :: cs => (t.write c.1 c.2).2.1.after cs

theorem capacity_after (t : Expander) (earlier : List (σ × Bytes)) :
    (t.after earlier).capacity = t.capacity := by
  induction earlier generalizing t with
  | nil => rfl
  | cons c cs ih => rw [after, ih, capacity_write]

end

/-! ## The count -/

/-- The largest number of bytes of `src` whose expanded form `out` begins with. -/
theorem CutAt.isGreatest {src out : Bytes} {done : Nat} (h : CutAt src out done) :
    IsGreatest {d | d ≤ src.length ∧ expand (src.take d) <+: out} done := by
  obtain ⟨front, a, back, rfl, rfl, hout⟩ := h
  constructor
  · refine ⟨by simp, ?_⟩
    rw [List.take_left]
    rcases hout with rfl | ⟨-, rfl⟩
    · exact List.prefix_refl _
    · exact List.prefix_append _ _
  · rintro d ⟨-, hd⟩
    refine Nat.not_lt.1 fun hlt => ?_
    have hnext : front ++ [a] <+: (front ++ a :: back).take d := by
      rw [List.take_append, List.take_of_length_le (by omega)]
      apply (List.prefix_append_right_inj front).2
      obtain ⟨m, hm⟩ : ∃ m, d - front.length = m + 1 := ⟨d - front.length - 1, by omega⟩
      rw [hm, List.take_succ_cons]
      exact ⟨back.take m, rfl⟩
    obtain ⟨more, hmore⟩ := hnext
    rw [← hmore, expand_append, expand_append] at hd
    have hlen := hd.length_le
    simp only [List.length_append, length_expand [a], List.length_singleton] at hlen
    rcases hout with rfl | ⟨rfl, rfl⟩
    · omega
    · rw [List.length_append, List.length_singleton, countNewlines,
        List.count_singleton_self] at hlen
      omega

theorem CutAt.lt {src out : Bytes} {done : Nat} (h : CutAt src out done) : done < src.length := by
  obtain ⟨front, a, back, rfl, rfl, -⟩ := h
  simp

theorem CutAt.eq_or {src out : Bytes} {done : Nat} (h : CutAt src out done) :
    out = expand (src.take done) ∨
      src[done]? = some lf ∧ out = expand (src.take done) ++ [cr] := by
  obtain ⟨front, a, back, rfl, rfl, hout⟩ := h
  rw [List.take_left]
  exact hout.imp_right fun ⟨ha, ho⟩ => ⟨by simp [ha], ho⟩

theorem CutAt.prefix_expand {src out : Bytes} {done : Nat} (h : CutAt src out done) :
    out <+: expand src := by
  obtain ⟨front, a, back, rfl, rfl, hout⟩ := h
  rw [expand_append]
  rcases hout with rfl | ⟨rfl, rfl⟩
  · exact List.prefix_append _ _
  · apply (List.prefix_append_right_inj _).2
    exact ⟨lf :: expand back, rfl⟩

/-- Nothing of the text is left over. -/
theorem isGreatest_length (src : Bytes) :
    IsGreatest {d | d ≤ src.length ∧ expand (src.take d) <+: expand src} src.length := by
  refine ⟨⟨Nat.le_refl _, ?_⟩, fun d hd => hd.1⟩
  exact ⟨[], by rw [List.take_length, List.append_nil]⟩

open Receiver in
/-- A device that had received what `s` has at the start. -/
def receiverSink {σ : Type} [Device σ] [Receiver σ] (s : σ) : Sink σ where
  Took out s' := received s' = received s ++ out
  Broke _ := True
  whole {out s₁} src h := by
    obtain ⟨n, error, s', hr, -, hreceived, herror⟩ := writeFully_received s₁ src
    cases error with
    | none =>
      obtain rfl : n = src.length := herror.1 rfl
      rw [List.take_length, h, List.append_assoc] at hreceived
      exact .inl ⟨s', hr, hreceived⟩
    | some e => exact .inr ⟨n, e, s', hr, trivial⟩

open Receiver in
/-- After any earlier writes, what the device received of a text, what the expander counts, and that
no difference of the count falls below zero. -/
theorem count_isGreatest {σ : Type} [Device σ] [Receiver σ] (n : Nat) (earlier : List (σ × Bytes))
    (s : σ) (src : Bytes) :
    let t := (ofCapacity n).after earlier
    let r := t.write s src
    let done := r.1.done
    ∃ sent, received r.2.2 = received s ++ sent ∧ sent <+: expand src ∧
      IsGreatest {d | d ≤ src.length ∧ expand (src.take d) <+: sent} done ∧
      (sent = expand (src.take done) ∨
        src[done]? = some lf ∧ sent = expand (src.take done) ++ [cr]) ∧
      (done = src.length ↔ r.1.error = none) ∧
      t.write? s src = some r ∧ r = (ofCapacity n).write s src := by
  intro t r done
  have hstart : (receiverSink s).Took [] s := (List.append_nil _).symm
  have hchecked : t.write? s src = some r := t.write?_eq hstart src
  have hfresh : r = (ofCapacity n).write s src := write_congr (capacity_after _ _) s src
  have hr : r = _ := write_eq t s src
  rcases t.written_passes hstart src with ⟨-, hw⟩ | ⟨-, hstop⟩
  · obtain ⟨htaken, htook⟩ := hw.taken_all
    have hdone : done = src.length := by rw [← htaken, show done = r.1.done from rfl, hr]
    have herror : r.1.error = none := by rw [hr, ← hw.no_error]
    rw [hdone, List.take_length]
    refine ⟨expand src, ?_, List.prefix_refl _, isGreatest_length src, .inl rfl,
      iff_of_true rfl herror, hchecked, hfresh⟩
    rw [hr]
    exact htook
  · obtain ⟨out, s₀, piece, m, e, htook, hwrite, herror, hcut⟩ := hstop
    have hdone : (t.written s src).2.1.taken = done := by rw [show done = r.1.done from rfl, hr]
    rw [hdone] at hcut
    obtain ⟨m', error, s', hwrite', -, hreceived, -⟩ := writeFully_received s₀ piece
    rw [hwrite] at hwrite'
    cases hwrite'
    have hsent : received r.2.2 = received s ++ (out ++ piece.take m) := by
      rw [hr, hreceived, show received s₀ = received s ++ out from htook, List.append_assoc]
    refine ⟨out ++ piece.take m, hsent, hcut.prefix_expand, hcut.isGreatest, hcut.eq_or, ?_,
      hchecked, hfresh⟩
    refine iff_of_false (Nat.ne_of_lt hcut.lt) ?_
    rw [hr, herror]
    exact Option.some_ne_none e

/-- The device takes the carriage return that was put in, but not its line feed. -/
example :
    let s : Recorder Scheduled := { device := ⟨[.ok 2, .error .nothingAccepted]⟩ }
    let r := (ofCapacity 4).write s [97, 10, 98]
    r.1 = ⟨1, some .nothingAccepted⟩ ∧ r.2.2.received = [97, 13] := by
  exact ⟨by cbv, by cbv⟩

end ByteChannel.Text.Expander
