import ByteChannel.Proofs.Buffered.Drawn
import ByteChannel.Proofs.Buffered.Use
import Mathlib

/-!
# How short a read of text comes

A read of text goes on where the last one stopped, and delivers as many bytes as it is asked for if
there are that many. It falls short in one case only: the stretch that it takes off the device ends
with a line end of two bytes, and the place of the second byte is not filled again. Then nothing is
left unread in the channel, and the next read goes on behind the line end.
-/

namespace ByteChannel

open Reliable Text

variable {σ : Type} [Device σ] [Reliable σ] {s : σ} {f : File}

/-! ## Collapsed reads -/

namespace Text

/-- What came of a stretch of `f` that was to fill `room` places with text. -/
structure Fills (r : Intake × σ) (room : Nat) (f : File) (k : Nat) : Prop where
  le : k ≤ f.rest.length
  intake : r.1 = ⟨collapse (f.rest.take k), none⟩
  whole : collapse f.rest = collapse (f.rest.take k) ++ collapse (f.rest.drop k)
  shows : Shows r.2 (f.advance k)
  full : r.1.bytes.length = room ∨ f.rest.drop k = [] ∨ [cr, lf] <:+ f.rest.take k

/-- A collapsed read is short only at the end or behind a line end of two bytes. -/
theorem readCollapsed_fills (hs : Shows s f) (hlen : f.bytes.length ≤ top σ) (n : Nat) :
    ∃ k, Fills (readCollapsed s n) n f k := by
  obtain ⟨k, hk, hr, hw, hd, hfull⟩ := readCollapsed_settled hs hlen n
  rw [List.nil_append] at hr hw hfull
  rw [Whole, List.take_append_drop] at hw
  refine ⟨k, hk, hr, hw, hd, ?_⟩
  obtain hl | hend | hnil | hpair := hfull
  · exact .inl (by simpa using hl)
  · exact .inr (.inl hend)
  · by_cases hn : n = 0
    · refine .inl ?_
      rw [hr, hnil, hn]
      rfl
    · have hrest := rest_eq_nil_of_readCollapsed hs hn (by rw [hr, hnil]; rfl)
      exact .inr (.inl (by rw [hrest, List.drop_nil]))
  · exact .inr (.inr hpair)

theorem Fills.split {r : Intake × σ} {room k n : Nat} (h : Fills r room f k) (hn : n ≤ room) :
    (r.1.bytes.take n).length = min n (collapse f.rest).length ∨
      r.1.bytes.drop n = [] ∧ [cr, lf] <:+ f.rest.take k := by
  have hl : (collapse f.rest).length = r.1.bytes.length + (collapse (f.rest.drop k)).length := by
    rw [h.whole, h.intake, List.length_append]
  by_cases hle : n ≤ r.1.bytes.length
  · left
    rw [List.length_take]
    omega
  obtain hfull | hend | hpair := h.full
  · omega
  · left
    rw [hend, collapse_nil, List.length_nil, Nat.add_zero] at hl
    rw [List.length_take, hl]
  · exact .inr ⟨List.drop_eq_nil_of_le (by omega), hpair⟩

end Text

/-! ## Devices in use -/

theorem shows_perform (hs : Shows s f) {call : IoCall} (hc : ∀ src, call = .write src → src ≠ []) :
    ∃ f', Shows (Device.perform s call).2 f' := by
  cases call with
  | read n =>
    rcases hr : Device.read s n with ⟨e | bs, s'⟩
    · rw [Device.perform, hr]
      exact ⟨f, (read_error hs hr).2⟩
    · rw [Device.perform, hr]
      exact ⟨_, (read_ok hs hr).2.2⟩
  | write src =>
    rcases hr : Device.write s src with ⟨e | k, s'⟩
    · rw [Device.perform, hr]
      exact ⟨f, (write_error hs (hc src rfl) hr).2⟩
    · rw [Device.perform, hr]
      exact ⟨_, (write_ok hs (hc src rfl) hr).2⟩
  | seek o =>
    rcases hr : Device.seek s o with ⟨e | pos, s'⟩
    · rw [Device.perform, hr]
      exact ⟨f, (seek_error hs hr).2⟩
    · rw [Device.perform, hr]
      exact ⟨_, (seek_ok hs hr).2⟩

theorem shows_of_used {s' : σ} (hu : Device.Used s s') (hs : Shows s f) : ∃ f', Shows s' f' := by
  obtain ⟨calls, hproper, rfl⟩ := hu
  induction calls generalizing s f with
  | nil => exact ⟨f, hs⟩
  | cons call calls ih =>
    obtain ⟨f₁, hs₁⟩ := shows_perform hs fun src hsrc => hproper src (hsrc ▸ List.mem_cons_self)
    exact ih hs₁ fun src hm => hproper src (List.mem_cons_of_mem call hm)

namespace Buffered

variable {c : Buffered σ} {d : σ}

/-! ## One read -/

/-- Behind `u` and over `f`, a read of `n` bytes of text has taken what stood first and left the
rest, with the device moved over `k` bytes of the file. -/
structure Delivers (r : Bytes × Buffered σ) (u : Bytes) (f : File) (n k : Nat) : Prop where
  le : k ≤ f.rest.length
  shows : ∃ d, r.2.device = some d ∧ Shows d (f.advance k)
  cut : r.1 ++ r.2.stock = u ++ collapse (f.rest.take k)
  whole : collapse f.rest = collapse (f.rest.take k) ++ collapse (f.rest.drop k)
  full : r.1.length = min n (u ++ collapse f.rest).length ∨
    r.2.stock = [] ∧ [cr, lf] <:+ f.rest.take k

theorem Delivers.behind {r : Bytes × Buffered σ} {u bs : Bytes} {m n k : Nat}
    (h : Delivers r u f m k) (hn : n = bs.length + m) :
    Delivers (bs ++ r.1, r.2) (bs ++ u) f n k := by
  refine ⟨h.le, h.shows, ?_, h.whole, h.full.imp_left fun hl => ?_⟩
  · rw [List.append_assoc, h.cut, List.append_assoc]
  · rw [List.append_assoc, List.length_append, List.length_append, hl, hn]
    omega

/-- A read of at least one byte delivers nothing only where nothing is left. -/
theorem Delivers.eq_nil {r : Bytes × Buffered σ} {u : Bytes} {n k : Nat} (h : Delivers r u f n k)
    (hr : r.1 = []) (hn : n ≠ 0) : u ++ collapse f.rest = [] := by
  obtain hl | ⟨hstock, hpair⟩ := h.full
  · rw [hr, List.length_nil] at hl
    exact List.eq_nil_of_length_eq_zero (by omega)
  · have hcut := h.cut
    rw [hr, hstock] at hcut
    have hnil := (collapse_eq_nil_iff _).1 (List.append_eq_nil_iff.1 hcut.symm).2
    rw [hnil] at hpair
    exact absurd (List.suffix_nil.1 hpair) (List.cons_ne_nil _ _)

theorem Inward.delivers_takeFresh (h : Inward c) (hc : c.onCell = false) (ht : c.text = true)
    (hd : c.device = some d) (hs : Shows d f) (hlen : f.bytes.length ≤ top σ) {n : Nat}
    (hu : n ≠ 0 → c.stock = []) : ∃ k, Delivers (c.takeFresh n) c.stock f n k := by
  by_cases hn : n = 0
  · subst hn
    rw [Buffered.takeFresh, if_pos rfl]
    exact ⟨0, Nat.zero_le _, ⟨d, hd, hs⟩, (List.append_nil _).symm, rfl,
      .inl (Nat.zero_min _).symm⟩
  obtain ⟨room, hroom, htake, hstock, hdev, -⟩ := h.takeFresh_received hc hd hn
  rw [ht] at htake hstock hdev
  obtain ⟨k, hk⟩ := readCollapsed_fills hs hlen room
  refine ⟨k, hk.le, ⟨_, hdev, hk.shows⟩, ?_, hk.whole, ?_⟩
  · rw [htake, hstock, List.take_append_drop, hu hn]
    exact congrArg Intake.bytes hk.intake
  · rw [htake, hstock, hu hn]
    exact hk.split hroom

theorem Coherent.turnToInput_shows (h : Coherent c)
    (he : c.expander.isSome = (c.text && c.mode.isWritable)) (hd : c.device = some d)
    (hs : Shows d f) (hlen : c.mode.append = true → f.bytes.length ≤ top σ) :
    c.turnToInput.stock = c.stock ∧ ∃ d', c.turnToInput.device = some d' ∧
      Shows d' (f.sent c.mode c.text c.pending) := by
  have hl := length_pending h
  unfold Buffered.turnToInput
  by_cases hp : c.pending = []
  · have hz : ¬ 0 < c.put.consumed := by
      rw [← hl, hp]
      exact Nat.lt_irrefl 0
    rw [if_neg hz, hp, File.sent_nil]
    exact ⟨rfl, d, hd, hs⟩
  · have hz : 0 < c.put.consumed := hl ▸ List.length_pos_iff.2 hp
    have ho : c.isOpen = true := by simp [isOpen, hd]
    have hw : c.mode.isWritable = true := by
      by_cases hw : c.mode.isWritable = true
      · exact hw
      · rw [h.no_output (by simpa using hw)] at hz
        exact absurd hz (Nat.lt_irrefl 0)
    obtain ⟨t, d', hsend, _, hd'⟩ := send_shows hs c.mode c.expander hp hlen
    have hsame := sameRegions_writePending c
    rw [if_pos hz]
    rw [he, hw, Bool.and_true] at hd'
    refine ⟨?_, d', ?_, hd'⟩
    · exact hsame.stock
    · simp only [writePending, if_pos ho, writeDirect, hd, hsend, latch]

structure Ready (c : Buffered σ) : Prop where
  expander : c.expander.isSome = (c.text && c.mode.isWritable)
  shows : ∀ d, c.device = some d → ∃ f, Shows d f

/-- A read delivers what is unread and then what the file goes on with, after the output that still
waits. -/
theorem Ready.delivers_read (h : Ready c) (hc : Coherent c) (hr : c.canRead = true)
    (ht : c.text = true) (hd : c.device = some d) (hs : Shows d f)
    (hlen : (f.sent c.mode true c.pending).bytes.length ≤ top σ) {n : Nat} (hn : n ≠ 0) :
    ∃ k, Delivers (c.read n) c.stock (f.sent c.mode true c.pending) n k := by
  have hp := hc.pushedBack false
  obtain ⟨c₁, hin, hcell, hdev, hsame, -, -, hdrop, hread⟩ := hc.read_eq hr hn
  -- what waits is sent
  obtain ⟨hstock, d', hd', hs'⟩ := hp.turnToInput_shows h.expander hd hs fun _ =>
    Nat.le_trans (f.length_le_sent c.pending) hlen
  change (Buffered.turnToInput { c with pushedBack := false }).stock = c.stock at hstock
  change Shows d' (f.sent c.mode c.text c.pending) at hs'
  rw [ht] at hs'
  have htext : (Buffered.turnToInput { c with pushedBack := false }).text = true :=
    (congrArg Setup.text (onward_turnToInput { c with pushedBack := false }).setup).trans ht
  rw [hstock] at hdrop hread
  -- then the device is asked for what is missing
  have hnone : n - c.stock.length ≠ 0 → c₁.stock = [] := by
    intro hm
    rw [hdrop]
    exact List.drop_eq_nil_of_le (by omega)
  obtain ⟨k, hk⟩ := hin.delivers_takeFresh hcell (hsame.trans htext) (hdev.trans hd') hs' hlen hnone
  have hlength : n = (c.stock.take n).length + (n - c.stock.length) := by
    rw [List.length_take]
    omega
  have hfront := hk.behind hlength
  rw [hdrop, List.take_append_drop] at hfront
  rw [hread]
  exact ⟨k, hfront⟩

/-! ## Any use -/

theorem Ready.onward {c' : Buffered σ} (h : Ready c) (hon : Onward c c') : Ready c' := by
  refine ⟨ExpandsText.onward h.expander hon, fun d' hd' => ?_⟩
  have hdev := hon.device
  rw [hd'] at hdev
  cases hd : c.device with
  | none =>
    rw [hd] at hdev
    cases hdev
  | some d =>
    obtain ⟨f, hs⟩ := h.shows d hd
    rw [hd] at hdev
    cases hdev with
    | some hu => exact shows_of_used hu hs

theorem Ready.attach {c' : Buffered σ} {mode : OpenMode} (h : c.attach d mode = .ok c')
    (hs : Shows d f) : Ready c' := by
  obtain ⟨_, ⟨d', hd', hu⟩, _⟩ := attach_spec h
  refine ⟨expandsText_attach h, fun d₁ hd₁ => ?_⟩
  rw [hd'] at hd₁
  cases hd₁
  exact shows_of_used hu hs

theorem Ready.close (h : Ready c) : Ready c.close.2.1 := by
  refine ⟨ExpandsText.close h.expander, fun d hd => ?_⟩
  obtain ⟨-, hr⟩ | ⟨_, _, _, _, -, -, hr, hnone, -⟩ := close_spec c
  · rw [hr] at hd
    exact h.shows d hd
  · rw [hr, hnone] at hd
    cases hd

theorem Ready.use (h : Ready c) (hc : Coherent c) {u : Use σ}
    (hu : ∀ d mode, u = .attach d mode → ∃ f, Shows d f) : Ready (c.use u).2 := by
  cases u with
  | attach d mode =>
    obtain ⟨f, hs⟩ := hu d mode rfl
    cases ha : c.attach d mode with
    | ok c' =>
      simp only [Buffered.use, ha]
      exact .attach ha hs
    | error e =>
      simp only [Buffered.use, ha]
      exact h
  | configure o => exact ⟨h.expander, h.shows⟩
  | call call =>
    obtain ⟨hon, _⟩ | ⟨buffer, c₁, hon, _, heq⟩ := hc.perform_spec call
    · exact h.onward hon
    · simp only [Buffered.use, heq]
      exact ⟨(h.onward hon).expander, (h.onward hon).shows⟩
  | stream call => exact h.onward (hc.onward_stream call)
  | takeError => exact h.onward (onward_takeError c)
  | describe => exact h
  | close => exact h.close

theorem Ready.useAll (h : Ready c) (hc : Coherent c) {us : List (Use σ)}
    (hus : ∀ d mode, .attach d mode ∈ us → ∃ f, Shows d f) : Ready (c.useAll us).2 := by
  induction us generalizing c with
  | nil => exact h
  | cons u us ih =>
    have hu := h.use hc fun d mode he => hus d mode (he ▸ List.mem_cons_self)
    exact ih hu (hc.use u) fun d mode hm => hus d mode (List.mem_cons_of_mem u hm)

/-- However a text channel was used, its device shows a file, and a read of `n` bytes delivers what
is unread and then what the file goes on with after the output that still waits: nothing only where
nothing is left, and otherwise `n` bytes or all that is left, unless the stretch that was taken off
the device ends with a line end of two bytes. A collapsed read falls short in the same case only. -/
theorem text_read_short_only_behind_pair (o : Settings) (history : List (Use σ))
    (hhistory : ∀ d mode, Use.attach d mode ∈ history → ∃ f, Shows d f) :
    let c := ((withSettings o : Buffered σ).useAll history).2
    (c.canRead = true → c.text = true →
      ∃ d, c.device = some d ∧ (∃ f, Shows d f) ∧ ∀ f, Shows d f →
        let g := f.sent c.mode true c.pending
        let left := c.stock ++ collapse g.rest
        g.bytes.length ≤ top σ →
        ∀ n, (c.read n).1 <+: left ∧ ((c.read n).1 = [] → n = 0 ∨ left = []) ∧
          ((c.read n).1.length = min n left.length ∨
            ∃ k ≤ g.rest.length, (c.read n).1 = c.stock ++ collapse (g.rest.take k) ∧
              [cr, lf] <:+ g.rest.take k ∧ (c.read n).2.stock = [] ∧
              ∃ d', (c.read n).2.device = some d' ∧ Shows d' (g.advance k))) ∧
    ∀ (s : σ) f n, Shows s f → f.bytes.length ≤ top σ →
      ∃ k ≤ f.rest.length, (readCollapsed s n).1 = ⟨collapse (f.rest.take k), none⟩ ∧
        Shows (readCollapsed s n).2 (f.advance k) ∧
        ((collapse (f.rest.take k)).length = n ∨ f.rest.drop k = [] ∨
          [cr, lf] <:+ f.rest.take k) := by
  intro c
  refine ⟨fun hread htext => ?_, fun s f n hs hlen => ?_⟩
  · have hcoherent : Coherent c := (coherent_withSettings o).useAll history
    have hstart : Ready (withSettings o : Buffered σ) := ⟨rfl, fun d hd => by cases hd⟩
    have hready : Ready c := hstart.useAll (coherent_withSettings o) hhistory
    obtain ⟨d, hd⟩ := Option.isSome_iff_exists.1 (Bool.and_eq_true_iff.1 hread).1
    refine ⟨d, hd, hready.shows d hd, ?_⟩
    intro f hs g left hlen n
    by_cases hn : n = 0
    · have hnone : c.read n = ([], c) := if_pos (.inl hn)
      rw [hnone]
      exact ⟨List.nil_prefix, fun _ => .inl hn, .inl (by rw [hn, Nat.zero_min]; rfl)⟩
    obtain ⟨k, hk⟩ := hready.delivers_read hcoherent hread htext hd hs hlen hn
    have hleft : (c.read n).1 ++ ((c.read n).2.stock ++ collapse (g.rest.drop k)) = left := by
      rw [← List.append_assoc, hk.cut, List.append_assoc, ← hk.whole]
    refine ⟨⟨_, hleft⟩, fun hnil => .inr (hk.eq_nil hnil hn), ?_⟩
    refine hk.full.imp_right fun ⟨hstock, hpair⟩ => ⟨k, hk.le, ?_, hpair, hstock, hk.shows⟩
    rw [← hk.cut, hstock, List.append_nil]
  · obtain ⟨k, hk⟩ := readCollapsed_fills hs hlen n
    have hfull := hk.full
    rw [hk.intake] at hfull
    exact ⟨k, hk.le, hk.intake, hk.shows, hfull⟩

/-- A byte is pushed back into a buffer of two. The next four bytes would go on past a line end, at
which the read stops. -/
theorem text_read_short_only_behind_pair_cut :
    let d : Faulty := { cursor := .ofBytes [97, 98, 13, 10, 13, 10, 99] 0, readChunk := some 1 }
    let history : List (Use Faulty) :=
      [.attach d { read := true }, .call .readByte, .call (.unread 120)]
    let c := ((withSettings { bufferSize := 2, textPolicy := .translate }).useAll history).2
    c.canRead = true ∧ c.text = true ∧ ∃ d f, c.device = some d ∧ Shows d f ∧
      c.stock ++ collapse f.rest = [120, 98, 10, 10, 99] ∧ (c.read 4).1 = [120, 98, 10] ∧
      ∀ n, (c.read n).1 <+: [120, 98, 10, 10, 99] := by
  intro d history c
  have hhistory : ∀ d mode, Use.attach d mode ∈ history → ∃ f, Shows d f := by
    intro d' mode hm
    simp only [history, List.mem_cons, List.not_mem_nil, or_false, reduceCtorEq,
      Use.attach.injEq] at hm
    obtain ⟨rfl, _⟩ := hm
    exact ⟨_, ⟨by decide, by decide, rfl, rfl, rfl, rfl⟩, rfl⟩
  have hread : c.canRead = true := by
    unfold c history d
    cbv
  have htext : c.text = true := by
    unfold c history d
    cbv
  have hfile : c.device.map (fun d => d.cursor.file) =
      some ⟨[97, 98, 13, 10, 13, 10, 99], 2⟩ := by
    unfold c history d
    cbv
  have hheld : c.stock = [120, 98] ∧ c.pending = [] := by
    unfold c history d
    exact ⟨by cbv, by cbv⟩
  have hfour : (c.read 4).1 = [120, 98, 10] := by
    unfold c history d
    cbv
  obtain ⟨d', hd', ⟨f, hs⟩, hall⟩ :=
    (text_read_short_only_behind_pair _ history hhistory).1 hread htext
  rw [show c.device = some d' from hd', Option.map_some, hs.2, Option.some.injEq] at hfile
  subst hfile
  have hnext := hall _ hs
  have hleft : [120, 98] ++ collapse (File.rest ⟨[97, 98, 13, 10, 13, 10, 99], 2⟩) =
      [120, 98, 10, 10, 99] := by cbv
  have hc :
      ((withSettings { bufferSize := 2, textPolicy := .translate }).useAll history).2 = c := rfl
  simp only [hc, hheld, File.sent_nil, hleft] at hnext
  refine ⟨hread, htext, d', _, hd', hs, ?_, hfour, fun n => (hnext (by decide) n).1⟩
  rw [hheld.1, hleft]

/-- A text of four bytes, without a buffer. A read of two bytes stops behind the first line end, and
so does a collapsed read, though three bytes of text are left. -/
theorem text_read_short_behind_pair :
    let d : Cursor := .ofBytes [13, 10, 97, 98] 0
    let c := ((withSettings { bufferSize := 0, textPolicy := .translate }).useAll
      [.attach d { read := true }]).2
    c.canRead = true ∧ c.text = true ∧ c.device = some d ∧ Shows d ⟨[13, 10, 97, 98], 0⟩ ∧
      c.stock ++ collapse [13, 10, 97, 98] = [10, 97, 98] ∧ (c.read 2).1 = [10] ∧
      (readCollapsed d 2).1 = ⟨[10], none⟩ ∧ (readCollapsed d 2).2.file.rest = [97, 98] := by
  exact ⟨by cbv, by cbv, by cbv, by cbv, by cbv, by cbv, by cbv, by cbv⟩

end Buffered

end ByteChannel
