import ByteChannel.Proofs.Buffered.Failing
import ByteChannel.Proofs.Buffered.ShortReads

/-!
# A byte that is pushed back comes next

Right after input there is always a place for one byte in front of what is unread: where the last
byte was taken from, or the cell. A byte put there comes first, and then the input goes on as it
would have without it, however it is read. A failure that was latched before may be told once, where
nothing is at hand, and disturbs nothing else.
-/

namespace ByteChannel.Buffered

variable {σ : Type}

/-! ## Room for one byte -/

/-- One byte may be pushed back. -/
structure Returnable (c : Buffered σ) : Prop where
  canRead : c.canRead = true
  pushedBack : c.pushedBack = false
  put : c.put.isCollapsed = true
  place : 0 < c.get.consumed ∨ c.onCell = false

theorem slice_overwrite_singleton {bs : Bytes} {pos stop : Nat} (hpos : pos < stop)
    (hstop : stop ≤ bs.length) (b : UInt8) :
    slice (overwrite bs pos [b]) pos stop = b :: slice bs (pos + 1) stop := by
  have hle : pos ≤ bs.length := by omega
  have hlen : (bs.take pos).length = pos := List.length_take_of_le hle
  obtain ⟨n, hn⟩ : ∃ n, stop - pos = n + 1 := ⟨stop - pos - 1, by omega⟩
  have hn' : stop - (pos + 1) = n := by omega
  rw [slice, slice, overwrite_eq_take_append_drop _ _ hle, List.append_assoc, List.drop_left' hlen,
    hn, hn', List.singleton_append, List.take_succ_cons, List.length_singleton]

variable {c c' : Buffered σ}

/-- A byte is taken back where one may be, or else nothing changes. -/
theorem unread_cases (c : Buffered σ) (b : UInt8) :
    Returnable c ∧ (c.unread b).1 = true ∧ (c.unread b).2.pushedBack = true ∨
      c.unread b = (false, c) := by
  unfold Buffered.unread
  by_cases hno : c.canRead = false ∨ c.pushedBack = true ∨ c.put.isCollapsed = false
  · exact .inr (if_pos hno)
  rw [if_neg hno]
  simp only [not_or, Bool.not_eq_false, Bool.not_eq_true] at hno
  obtain ⟨hread, hback, hput⟩ := hno
  cases hstep : c.get.stepBack? with
  | some get =>
    have hplace : 0 < c.get.consumed := by
      by_contra hz
      rw [(Region.stepBack?_eq_none_iff _).2 (by omega)] at hstep
      cases hstep
    refine .inl ⟨⟨hread, hback, hput, .inl hplace⟩, ?_⟩
    cases c.onCell <;> exact ⟨rfl, rfl⟩
  | none =>
    cases hcell : c.onCell with
    | true => exact .inr rfl
    | false => exact .inl ⟨⟨hread, hback, hput, .inr hcell⟩, rfl, rfl⟩

theorem Returnable.unread (h : Returnable c) (hc : Coherent c) (b : UInt8) :
    ∃ get buffer cell onCell,
      let c' := { c with
        get := get
        buffer := buffer
        cell := cell
        onCell := onCell
        pushedBack := true }
      c.unread b = (true, c') ∧ c'.stock = b :: c.stock := by
  have hok : ¬ (c.canRead = false ∨ c.pushedBack = true ∨ c.put.isCollapsed = false) := by
    simp [h.canRead, h.pushedBack, h.put]
  unfold Buffered.unread
  rw [if_neg hok]
  cases hstep : c.get.stepBack? with
  | none =>
    have hz := (Region.stepBack?_eq_none_iff _).1 hstep
    have hcell : c.onCell = false := h.place.resolve_left (by omega)
    have hnext : c.get.next = 0 := by
      have := hc.get_base
      have := c.get.base_le_next
      simp only [Region.consumed] at hz
      omega
    rw [hcell]
    refine ⟨_, c.buffer, b, true, rfl, ?_⟩
    rw [stock_of_not_onCell hcell]
    simp [stock, ahead, hcell, hnext, hc.get_limit hcell, slice]
  | some get =>
    obtain ⟨hbase, hlimit, hnext⟩ := Region.stepBack?_spec hstep
    have hle := c.get.next_le_limit
    by_cases hcell : c.onCell = true
    · have := hc.cell_limit hcell
      have hnext₀ : get.next = 0 := by omega
      have hlimit₀ : get.limit = 1 := by omega
      have hspent : c.ahead = [] := (ahead_eq_nil_iff hc).2 (by rw [Region.available]; omega)
      simp only [if_pos hcell]
      refine ⟨get, c.buffer, b, c.onCell, rfl, ?_⟩
      rw [stock, stock, hspent, ahead]
      simp [hcell, hnext₀, hlimit₀, slice]
    · have hcell : c.onCell = false := by simpa using hcell
      have := hc.get_limit hcell
      have := hc.filled_le
      simp only [hcell, Bool.false_eq_true, if_false]
      refine ⟨get, _, c.cell, c.onCell, by rw [hcell], ?_⟩
      simp only [stock, ahead, hcell, Bool.false_eq_true, if_false, List.append_nil]
      rw [hlimit, slice_overwrite_singleton (by omega) (by omega), hnext]

/-! ## After input -/

theorem unreadCount_of_available (ha : 0 < c.get.available) : c.unreadCount ≠ 0 := by
  rw [unreadCount]
  omega

theorem Coherent.canRead_of_available (h : Coherent c) (ha : 0 < c.get.available) :
    c.canRead = true := by
  have hu := unreadCount_of_available ha
  have hr : c.mode.isReadable = true := by
    by_cases hr : c.mode.isReadable = true
    · exact hr
    · exact absurd (h.no_input (by simpa using hr)) hu
  have ho : c.isOpen = true := by
    by_cases ho : c.isOpen = true
    · exact ho
    · rw [h.closed (by simpa using ho)] at hr
      cases hr
  rw [canRead, ho, hr]
  rfl

theorem Coherent.returnable_advance (h : Coherent c) (ha : 0 < c.get.available) {n : Nat}
    (hn : 0 < n) : Returnable (c.advance n) where
  canRead := h.canRead_of_available ha
  pushedBack := rfl
  put := h.isCollapsed_of_unread (unreadCount_of_available ha)
  place := by
    have := c.get.base_le_next
    have hnext := c.get.next_bump n
    left
    change 0 < (c.get.bump n).consumed
    simp only [Region.available] at ha
    rw [Region.consumed, Region.base_bump]
    omega

variable [Device σ]

/-- Input of at least one byte. -/
inductive Consumes (c : Buffered σ) : Buffered σ → Prop
  | readByte {b : UInt8} {c' : Buffered σ} (h : c.readByte = (some b, c')) : Consumes c c'
  | read {n : Nat} {bs : Bytes} {c' : Buffered σ} (h : c.read n = (bs, c')) (hbs : bs ≠ []) :
    Consumes c c'
  | consume {n : Nat} {c' : Buffered σ} (h : c.consume? n = some c') (hn : 0 < n)
    (ha : 0 < c.get.available) : Consumes c c'

theorem pushedBack_turnToInput (c : Buffered σ) : c.turnToInput.pushedBack = c.pushedBack := by
  unfold Buffered.turnToInput
  split
  · exact (sameRegions_writePending c).pushedBack
  · rfl

theorem takeFresh_flags (c : Buffered σ) (n : Nat) :
    (c.takeFresh n).2.pushedBack = c.pushedBack ∧ (c.takeFresh n).2.onCell = c.onCell := by
  unfold Buffered.takeFresh
  split
  · exact ⟨rfl, rfl⟩
  · split
    · unfold Buffered.refill
      split <;> exact ⟨rfl, rfl⟩
    · have hsame := sameRegions_readDirect c n
      exact ⟨hsame.pushedBack, hsame.onCell⟩

theorem Inward.returnable_takeFresh (h : Inward c) (hcell : c.onCell = false)
    (hback : c.pushedBack = false) (n : Nat) : Returnable (c.takeFresh n).2 := by
  have hin := h.takeFresh hcell n
  obtain ⟨hpushed, hcell'⟩ := takeFresh_flags c n
  refine ⟨?_, hpushed.trans hback, ?_, .inr (hcell'.trans hcell)⟩
  · rw [canRead, hin.isOpen, hin.readable]
    rfl
  · rw [hin.put]
    rfl

theorem Coherent.returnable_read (h : Coherent c) {n : Nat} {bs : Bytes}
    (hread : c.read n = (bs, c')) (hbs : bs ≠ []) : Returnable c' := by
  have hcr : ¬ (n = 0 ∨ c.canRead = false) := by
    intro hno
    rw [Buffered.read, if_pos hno] at hread
    cases hread
    exact hbs rfl
  obtain ⟨hn, hr⟩ := not_or.1 hcr
  obtain ⟨c₁, hin, hcell, -, -, -, hback, -, heq⟩ := h.read_eq (by simpa using hr) hn
  rw [heq] at hread
  obtain ⟨-, rfl⟩ := Prod.mk.inj hread
  rw [pushedBack_turnToInput] at hback
  exact hin.returnable_takeFresh hcell hback _

theorem Consumes.returnable (hc : Coherent c) (h : Consumes c c') : Returnable c' := by
  cases h with
  | @readByte b _ h =>
    have hp := hc.peek
    unfold Buffered.readByte at h
    rcases hr : c.peek with ⟨_ | b', c₁⟩
    · rw [hr] at h
      cases h
    · rw [hr] at h hp
      cases h
      exact hp.returnable_advance (available_of_peek hr) Nat.one_pos
  | read h hbs => exact hc.returnable_read h hbs
  | consume h hn ha =>
    obtain ⟨get, hget, rfl⟩ := Option.map_eq_some_iff.1 h
    unfold Region.bump? at hget
    split at hget
    · cases hget
      exact hc.returnable_advance ha hn
    · cases hget

/-- Such input is a use, and opens nothing. -/
theorem Consumes.exists_use (h : Consumes c c') :
    ∃ u, (c.use u).2 = c' ∧ ∀ d mode, u ≠ .attach d mode := by
  cases h with
  | readByte h => exact ⟨.call .readByte, congrArg Prod.snd h, fun _ _ he => (by cases he)⟩
  | @read n _ _ h => exact ⟨.call (.read n), congrArg Prod.snd h, fun _ _ he => (by cases he)⟩
  | @consume n _ h =>
    refine ⟨.stream (.consume n), ?_, fun _ _ he => (by cases he)⟩
    simp only [Buffered.use, Buffered.stream, h]
    rfl

/-! ## The input to come -/

open Reliable Text

variable [Reliable σ] {d : σ} {f : File}

/-- Where no output waits, the input to come is what is unread and then what the device shows. -/
theorem Ready.streams (h : Ready c) (hc : Coherent c) (hput : c.put.isCollapsed = true)
    (hd : c.device = some d) (hs : Shows d f) (hlen : f.bytes.length ≤ top σ) :
    Streams c.mode c.text { c with error := none } (c.stock ++ decoded c.text f.rest) := by
  have hpending : c.pending = [] := by
    rw [← List.length_eq_zero_iff, length_pending hc, Region.consumed_of_isCollapsed hput]
  have hheld : Held c.mode c.text { c with error := none } c.stock [] f :=
    ⟨⟨rfl, rfl, h.expander, rfl, d, hd, hs⟩, hc.clearError, rfl, hpending⟩
  exact ⟨c.stock, f, .of_held hheld, fun _ => hlen, rfl⟩

/-- After input of at least one byte, in whatever state of the channel, any byte is taken back and
no second one. It comes first, and behind it comes what would have come without it, in any mix of
input calls. Only a failure that was latched before may be told in between, where nothing is at
hand. -/
theorem pushed_back_comes_next (o : Settings) (history : List (Use σ))
    (hhistory : ∀ d mode, Use.attach d mode ∈ history → ∃ f, Shows d f) (c : Buffered σ)
    (hc : Consumes ((withSettings o).useAll history).2 c) (b : UInt8) :
    let back := (c.unread b).2
    (c.unread b).1 = true ∧ (∀ b', (back.unread b').1 = false) ∧
      ∃ d, c.device = some d ∧ (∃ f, Shows d f) ∧ ∀ f, Shows d f → f.bytes.length ≤ top σ →
        let stream := c.stock ++ decoded c.text f.rest
        ∀ calls : List Call, (∀ call ∈ calls, call.isInput = true) →
          let answers := (c.performAll calls).1.map Answer.quiet
          let after := (back.performAll calls).1.map Answer.quiet
          Call.DeliversAll stream calls answers ∧ Call.DeliversAll (b :: stream) calls after ∧
            Call.takenAll calls after <+: b :: stream ∧
            ((∃ r ∈ calls.zip after, r.1.reportsEnd r.2 = true) →
              Call.takenAll calls after = b :: stream) := by
  intro back
  have hbefore := (coherent_withSettings o : Coherent (withSettings o : Buffered σ)).useAll history
  have hreturn := hc.returnable hbefore
  obtain ⟨hready, hcoherent⟩ : Ready c ∧ Coherent c := by
    have hstart : Ready (withSettings o : Buffered σ) := ⟨rfl, fun d hd => by cases hd⟩
    obtain ⟨u, rfl, hu⟩ := hc.exists_use
    exact ⟨(hstart.useAll (coherent_withSettings o) hhistory).use hbefore
      fun d mode heq => absurd heq (hu d mode), hbefore.use u⟩
  obtain ⟨get, buffer, cell, onCell, heq, hstock⟩ := hreturn.unread hcoherent b
  have hback : back = { c with
      get := get
      buffer := buffer
      cell := cell
      onCell := onCell
      pushedBack := true } := congrArg Prod.snd heq
  have hcback : Coherent back := hcoherent.unread b
  refine ⟨congrArg Prod.fst heq, fun b' => ?_, ?_⟩
  · have hno : back.pushedBack = true := by rw [hback]
    rw [Buffered.unread, if_pos (.inr (.inl hno))]
  obtain ⟨hopen, hmode⟩ := Bool.and_eq_true_iff.1 hreturn.canRead
  obtain ⟨d, hd⟩ := Option.isSome_iff_exists.1 hopen
  refine ⟨d, hd, hready.shows d hd, fun f hs hlen => ?_⟩
  intro stream calls hcalls answers after
  have hstream := hready.streams hcoherent hreturn.put hd hs hlen
  have hreadyBack : Ready back := by
    rw [hback]
    exact ⟨hready.expander, hready.shows⟩
  have hstreamBack : Streams c.mode c.text { back with error := none } (b :: stream) := by
    have h := hreadyBack.streams hcback (by rw [hback]; exact hreturn.put) (by rw [hback]; exact hd)
      hs hlen
    rw [hback] at h ⊢
    rw [hstock] at h
    exact h
  have hafter := hstreamBack.performAll_quiet hmode calls hcalls
  exact ⟨hstream.performAll_quiet hmode calls hcalls, hafter, hafter.takenAll_prefix,
    hafter.takenAll_of_reportsEnd⟩

/-- The byte that is read was pushed back before anything was taken of the buffer, so that the next
one goes to the cell and leaves the buffer parked. -/
theorem pushed_back_comes_next_parked :
    let d : Faulty :=
      { cursor := .ofBytes [97, 13, 10, 98] 0
        readChunk := some 1
        interruptPeriod := 2 }
    let history : List (Use Faulty) :=
      [.attach d { read := true }, .call .peek, .call (.unread 120)]
    let settings : Settings := { bufferSize := 2, textPolicy := .translate }
    let c := (((withSettings settings).useAll history).2.read 1).2
    let calls : List Call := [.peek, .fill 1, .read 2, .readByte, .fill 3]
    (c.unread 121).1 = true ∧ ((c.unread 121).2.unread 122).1 = false ∧
      Call.takenAll calls (((c.unread 121).2.performAll calls).1.map Answer.quiet) =
        [121, 97, 10, 98] := by
  intro d history settings c calls
  have hhistory : ∀ d mode, Use.attach d mode ∈ history → ∃ f, Shows d f := by
    intro d' mode hm
    simp only [history, List.mem_cons, List.not_mem_nil, or_false, reduceCtorEq,
      Use.attach.injEq] at hm
    obtain ⟨rfl, _⟩ := hm
    exact ⟨_, ⟨by decide, by decide, rfl, rfl, rfl, rfl⟩, rfl⟩
  have hone : (((withSettings settings).useAll history).2.read 1).1 = [120] := by
    unfold history settings d
    cbv
  have hfile : c.device.map (fun d => d.cursor.file) = some ⟨[97, 13, 10, 98], 3⟩ := by
    unfold c history settings d
    cbv
  have hheld : c.stock = [97, 10] ∧ c.text = true := by
    unfold c history settings d
    exact ⟨by cbv, by cbv⟩
  have hend : (calls.zip (((c.unread 121).2.performAll calls).1.map Answer.quiet))[4]? =
      some (Call.fill 3, Answer.shown (.ok [])) := by
    unfold calls c history settings d
    cbv
  have hcalls : ∀ call ∈ calls, call.isInput = true := by decide
  have hread : ((withSettings settings).useAll history).2.read 1 = ([120], c) := by
    rw [← hone]
  obtain ⟨hfirst, hsecond, d', hd', ⟨f, hs⟩, hall⟩ :=
    pushed_back_comes_next settings history hhistory c (.read hread (List.cons_ne_nil _ _)) 121
  clear_value c
  rw [hd', Option.map_some, hs.2, Option.some.injEq] at hfile
  subst hfile
  obtain ⟨_, _, _, hwhole⟩ := hall _ hs (by decide) calls hcalls
  have htaken := hwhole ⟨_, List.mem_of_getElem? hend, rfl⟩
  rw [hheld.1, hheld.2] at htaken
  have hcoming : [97, 10] ++ decoded true (File.rest ⟨[97, 13, 10, 98], 3⟩) = [97, 10, 98] := by
    cbv
  rw [hcoming] at htaken
  exact ⟨hfirst, hsecond 122, htaken⟩

end ByteChannel.Buffered
