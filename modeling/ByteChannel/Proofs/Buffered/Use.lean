import ByteChannel.Proofs.Buffered.AlikeCalls
import ByteChannel.Proofs.Buffered.Onward

/-!
# Uses of a channel and what they show

Everything that a caller can do with a channel is a use of it. A use shows its result and, after it,
the failure that is latched and the device with all that it has become. Channels that are alike show
the same under all uses.
-/

namespace ByteChannel

/-- The calls of the failing face. -/
inductive Streaming
  | read (n : Nat)
  | write (src : Bytes)
  | flush
  | seek (o : Origin)
  | peekChunk
  | consume (n : Nat)
  | readToEnd (limit : Nat)
  | readThrough (b : UInt8) (limit : Nat)
  deriving DecidableEq, Repr

inductive Streamed
  | bytes (r : Except IoError Bytes)
  | number (r : Except IoError Nat)
  | done (r : Except IoError Unit)
  | input (bs : Bytes)
  | flag (accepted : Bool)

inductive Use (σ : Type)
  | attach (d : σ) (mode : OpenMode)
  /-- Other settings for the next opening. -/
  | configure (o : Settings)
  | call (call : Call)
  | stream (call : Streaming)
  | takeError
  | describe
  | close

/-- A failed opening and a close give the device back. -/
inductive Outcome (σ : Type)
  | opened (r : Except (ChannelError × σ) Unit)
  | configured
  | answered (a : Answer)
  | streamed (a : Streamed)
  | taken (e : Option IoError)
  | described (text : String)
  | closed (r : Except ChannelError Unit) (d : Option σ)

/-- A use with all that a caller sees of it. -/
structure Seen (σ : Type) where
  use : Use σ
  outcome : Outcome σ
  error : Option IoError
  device : Option σ

namespace Buffered

variable {σ : Type} {c c' : Buffered σ}

/-- What a caller sees of a use that leaves the channel in this state. -/
def see (c : Buffered σ) (u : Use σ) (outcome : Outcome σ) : Seen σ where
  use := u
  outcome := outcome
  error := c.error
  device := c.device

theorem Alike.see (h : Alike c c') (u : Use σ) (outcome : Outcome σ) :
    c'.see u outcome = c.see u outcome := by
  unfold Buffered.see
  rw [h.error, h.device]

variable [Device σ]

/-- An amount that leaves the word is refused. -/
def stream (c : Buffered σ) : Streaming → Streamed × Buffered σ
  | .read n => (c.tryRead n).map .bytes id
  | .write src => (c.tryWrite src).map .number id
  | .flush => c.tryFlush.map .done id
  | .seek o => (c.trySeek o).map .number id
  | .peekChunk => c.peekChunk.map .bytes id
  | .consume n =>
    match c.consume? n with
    | some c' => (.flag true, c')
    | none => (.flag false, c)
  | .readToEnd limit => (c.readToEnd limit).map .input id
  | .readThrough b limit => (c.readThrough b limit).map .bytes id

def use (c : Buffered σ) : Use σ → Outcome σ × Buffered σ
  | .attach d mode =>
    match c.attach d mode with
    | .ok c' => (.opened (.ok ()), c')
    | .error e => (.opened (.error e), c)
  | .configure o => (.configured, { c with settings := o })
  | .call call => (c.perform call).map .answered id
  | .stream call => (c.stream call).map .streamed id
  | .takeError => c.takeError.map .taken id
  | .describe => (.described c.describe, c)
  | .close => let r := c.close; (.closed r.1 r.2.2, r.2.1)

/-- One use after the other. -/
def useAll (c : Buffered σ) : List (Use σ) → List (Seen σ) × Buffered σ
  | [] => ([], c)
  | u :: us =>
    let r := c.use u
    let more := r.2.useAll us
    (r.2.see u r.1 :: more.1, more.2)

theorem useAll_append (c : Buffered σ) (us vs : List (Use σ)) :
    c.useAll (us ++ vs) =
      ((c.useAll us).1 ++ ((c.useAll us).2.useAll vs).1, ((c.useAll us).2.useAll vs).2) := by
  induction us generalizing c with
  | nil => rfl
  | cons u us ih => simp only [List.cons_append, useAll, ih]

/-! ## Uses keep the regions coherent -/

theorem Coherent.tryRead (h : Coherent c) (n : Nat) : Coherent (c.tryRead n).2 := by
  have hr := h.read n
  unfold Buffered.tryRead
  by_cases ho : c.isOpen = false
  · rw [if_pos ho]
    exact h
  rw [if_neg ho]
  dsimp only
  by_cases he : (c.read n).1 = [] ∧ n ≠ 0
  · rw [if_pos he]
    cases (c.read n).2.error with
    | none => exact hr
    | some e => exact hr.clearError
  · rw [if_neg he]
    exact hr

theorem Coherent.tryWrite (h : Coherent c) (src : Bytes) : Coherent (c.tryWrite src).2 := by
  have hw := h.write src
  unfold Buffered.tryWrite
  by_cases ho : c.isOpen = false
  · rw [if_pos ho]
    exact h
  rw [if_neg ho]
  dsimp only
  by_cases he : (c.write src).1 = 0 ∧ src ≠ []
  · rw [if_pos he]
    exact hw.clearError
  · rw [if_neg he]
    exact hw

theorem Coherent.readToEnd (h : Coherent c) (limit : Nat) : Coherent (c.readToEnd limit).2 := by
  fun_induction Buffered.readToEnd c limit with
  | case1 => exact h
  | case2 c limit r hr => exact h.readByte
  | case3 c limit r b hr along more ih => exact ih (h.readByte.advance _)

theorem Coherent.readThrough (h : Coherent c) (b : UInt8) (limit : Nat) :
    Coherent (c.readThrough b limit).2 := by
  fun_induction Buffered.readThrough c b limit with
  | case1 => exact h
  | case2 c limit r e hr => exact h.peekChunk
  | case3 c limit r hr => exact h.peekChunk.advance 0
  | case4 c limit r chunk hr hne hmem found => exact h.peekChunk.advance _
  | case5 c limit r chunk hr hne hmem more ih => exact ih (h.peekChunk.advance _)

theorem Coherent.stream (h : Coherent c) (call : Streaming) : Coherent (c.stream call).2 := by
  cases call with
  | read n => exact h.tryRead n
  | write src => exact h.tryWrite src
  | flush => exact h.flush
  | seek o => exact h.seek o
  | peekChunk => exact h.peekChunk
  | consume n =>
    cases hn : c.consume? n with
    | none =>
      simp only [Buffered.stream, hn]
      exact h
    | some c' =>
      simp only [Buffered.stream, hn]
      exact h.consume hn
  | readToEnd limit => exact h.readToEnd limit
  | readThrough b limit => exact h.readThrough b limit

theorem Coherent.use (h : Coherent c) (u : Use σ) : Coherent (c.use u).2 := by
  cases u with
  | attach d mode =>
    cases ha : c.attach d mode with
    | ok c' =>
      simp only [Buffered.use, ha]
      exact coherent_attach ha
    | error e =>
      simp only [Buffered.use, ha]
      exact h
  | configure o => exact h.configure o
  | call call => exact h.perform call
  | stream call => exact h.stream call
  | takeError => exact h.clearError
  | describe => exact h
  | close => exact h.close

theorem Coherent.useAll (h : Coherent c) (us : List (Use σ)) : Coherent (c.useAll us).2 := by
  induction us generalizing c with
  | nil => exact h
  | cons u us ih => exact ih (h.use u)

theorem onward_consume (c : Buffered σ) (n : Nat) : Onward c (c.stream (.consume n)).2 := by
  simp only [stream, consume?]
  cases c.get.bump? n with
  | none => exact .refl c
  | some get => exact .same rfl rfl

theorem Coherent.onward_stream (h : Coherent c) (call : Streaming) :
    Onward c (c.stream call).2 := by
  cases call with
  | read n => exact onward_tryRead c n
  | write src => exact h.onward_tryWrite src
  | flush => exact onward_flush c
  | seek o => exact onward_seek c o
  | peekChunk => exact onward_peekChunk c
  | consume n => exact onward_consume c n
  | readToEnd limit => exact onward_readToEnd c limit
  | readThrough b limit => exact onward_readThrough c b limit

/-! ## Uses show the same of alike channels -/

namespace Alike

theorem tryRead (h : Alike c c') (hc : Coherent c) (n : Nat) :
    Matches (c.tryRead n) (c'.tryRead n) := by
  unfold Buffered.tryRead
  rw [h.isOpen]
  by_cases ho : c.isOpen = false
  · rw [if_pos ho, if_pos ho]
    exact h.same _
  rw [if_neg ho, if_neg ho]
  obtain ⟨bs, s, s', hs, hs', ha⟩ := h.read hc n
  rw [hs, hs']
  dsimp only
  by_cases he : bs = [] ∧ n ≠ 0
  · rw [if_pos he, if_pos he, ha.error]
    cases s.error with
    | none => exact ha.same _
    | some e => exact ha.clearError.same _
  · rw [if_neg he, if_neg he]
    exact ha.same _

theorem tryWrite (h : Alike c c') (hc : Coherent c) (src : Bytes) :
    Matches (c.tryWrite src) (c'.tryWrite src) := by
  unfold Buffered.tryWrite
  rw [h.isOpen]
  by_cases ho : c.isOpen = false
  · rw [if_pos ho, if_pos ho]
    exact h.same _
  rw [if_neg ho, if_neg ho]
  obtain ⟨k, s, s', hs, hs', ha⟩ := h.write hc src
  rw [hs, hs']
  dsimp only
  by_cases he : k = 0 ∧ src ≠ []
  · rw [if_pos he, if_pos he, ha.error]
    exact ha.clearError.same _
  · rw [if_neg he, if_neg he]
    exact ha.same _

theorem readToEnd (h : Alike c c') (limit : Nat) (hc : Coherent c) :
    Matches (c.readToEnd limit) (c'.readToEnd limit) := by
  induction limit using Nat.strongRecOn generalizing c c' with
  | ind limit ih =>
    cases limit with
    | zero =>
      rw [Buffered.readToEnd, Buffered.readToEnd]
      exact h.same []
    | succ limit =>
      have hb := hc.readByte
      obtain ⟨a, s, s', hs, hs', ha⟩ := h.readByte hc
      rw [hs] at hb
      rw [Buffered.readToEnd, Buffered.readToEnd, hs, hs']
      cases a with
      | none => exact ha.same []
      | some b =>
        simp only [ha.ahead hb]
        exact (ih _ (by omega) (ha.advance _) (hb.advance _)).map _

theorem readThrough (h : Alike c c') (b : UInt8) (limit : Nat) (hc : Coherent c) :
    Matches (c.readThrough b limit) (c'.readThrough b limit) := by
  induction limit generalizing c c' with
  | zero => exact h.same _
  | succ limit ih =>
    have hp := hc.peekChunk
    obtain ⟨a, s, s', hs, hs', ha⟩ := h.peekChunk hc
    rw [hs] at hp
    rw [Buffered.readThrough, Buffered.readThrough, hs, hs']
    cases a with
    | error e => exact ha.same _
    | ok chunk =>
      dsimp only
      by_cases hn : chunk = []
      · rw [if_pos hn, if_pos hn]
        exact (ha.advance 0).same _
      rw [if_neg hn, if_neg hn]
      by_cases hm : b ∈ chunk
      · rw [if_pos hm, if_pos hm]
        exact (ha.advance _).same _
      · rw [if_neg hm, if_neg hm]
        exact (ih (ha.advance _) (hp.advance _)).map _

theorem stream (h : Alike c c') (hc : Coherent c) (call : Streaming) :
    Matches (c.stream call) (c'.stream call) := by
  cases call with
  | read n => exact (h.tryRead hc n).map _
  | write src => exact (h.tryWrite hc src).map _
  | flush => exact ((h.flush hc).map _).map _
  | seek o => exact ((h.seek hc o).map _).map _
  | peekChunk => exact (h.peekChunk hc).map _
  | consume n =>
    simp only [Buffered.stream, consume?, h.get]
    cases c.get.bump? n with
    | none => exact h.same _
    | some get =>
      obtain ⟨hsize, hfilled, hwaiting, hused⟩ := h
      refine Alike.same ?_ _
      exact .intro hsize hfilled hwaiting hused
  | readToEnd limit => exact (h.readToEnd limit hc).map _
  | readThrough b limit => exact (h.readThrough b limit hc).map _

theorem perform (h : Alike c c') (hc : Coherent c) (call : Call) :
    Matches (c.perform call) (c'.perform call) := by
  cases call with
  | read n => exact (h.read hc n).map _
  | readByte => exact (h.readByte hc).map _
  | peek => exact (h.peek hc).map _
  | fill n => exact (h.fill hc n).map _
  | unread b => exact (h.unread b).map _
  | write src => exact (h.write hc src).map _
  | writeByte b => exact (h.writeByte hc b).map _
  | overflow b => exact (h.overflow hc b).map _
  | flush => exact (h.flush hc).map _
  | seek o => exact (h.seek hc o).map _
  | tell => exact (h.seek hc _).map _
  | install buffer => exact (h.installBuffer hc buffer).map _
  | resize n => exact (h.installBuffer hc _).map _

end Alike

/-- Closed channels that open in the same way. -/
structure Reopens (c c' : Buffered σ) : Prop where
  closed : c.isOpen = false
  closed' : c'.isOpen = false
  settings : c'.settings = c.settings
  adopted : c'.adopted = c.adopted
  size : c.adopted = true → c'.buffer.length = c.buffer.length

/-- An opening leaves nothing to tell the channels apart. -/
theorem Reopens.attach (h : Reopens c c') (d : σ) (mode : OpenMode) :
    (∃ e, c.attach d mode = .error e ∧ c'.attach d mode = .error e) ∨
      ∃ s s', c.attach d mode = .ok s ∧ c'.attach d mode = .ok s' ∧ Alike s s' := by
  have ho : ¬ c.isOpen = true := by simp [h.closed]
  have ho' : ¬ c'.isOpen = true := by simp [h.closed']
  unfold Buffered.attach
  rw [if_neg ho, if_neg ho']
  rcases (if mode.startsAtEnd then Device.seek d (.finish 0) else (.ok 0, d)) with ⟨e | pos, d'⟩
  · exact .inl ⟨_, rfl, rfl⟩
  · have hsize : (if c.adopted then c'.buffer
        else List.replicate c.settings.bufferSize 0).length =
          (if c.adopted then c.buffer else List.replicate c.settings.bufferSize 0).length := by
      by_cases ha : c.adopted = true
      · rw [if_pos ha, if_pos ha, h.size ha]
      · rw [if_neg ha, if_neg ha]
    refine .inr ⟨_, _, rfl, rfl, ?_⟩
    unfold reset wholeBuffer
    simp only [h.settings, h.adopted, hsize]
    refine .intro hsize (.zero _ _) ?_ fun hcell => by cases hcell
    by_cases hw : mode.isWritable = true
    · simp only [if_pos hw]
      exact .zero _ _
    · simp only [if_neg hw]
      exact .zero _ _

namespace Alike

theorem close (h : Alike c c') (hc : Coherent c) : Matches (c.use .close) (c'.use .close) := by
  unfold Buffered.use Buffered.close
  rw [h.isOpen]
  by_cases ho : c.isOpen = false
  · rw [if_pos ho, if_pos ho]
    exact h.same _
  rw [if_neg ho, if_neg ho]
  obtain ⟨a, s, s', hs, hs', ha⟩ := h.flush hc
  rw [hs, hs']
  simp only [ha.device]
  cases s.device with
  | none => exact ha.shut.reset.same _
  | some d => exact ha.shut.reset.same _

theorem attach (h : Alike c c') (d : σ) (mode : OpenMode) :
    Matches (c.use (.attach d mode)) (c'.use (.attach d mode)) := by
  by_cases ho : c.isOpen = true
  · have ha : c.attach d mode = .error (.alreadyOpen, d) := if_pos ho
    have ha' : c'.attach d mode = .error (.alreadyOpen, d) := if_pos (h.isOpen.trans ho)
    simp only [Buffered.use, ha, ha']
    exact h.same _
  · have hclosed : c.isOpen = false := by simpa using ho
    have hreopens : Reopens c c' := by
      refine ⟨hclosed, h.isOpen.trans hclosed, ?_, ?_, fun _ => h.size⟩
      · cases h
        rfl
      · cases h
        rfl
    obtain ⟨e, ha, ha'⟩ | ⟨s, s', ha, ha', hs⟩ := hreopens.attach d mode
    · simp only [Buffered.use, ha, ha']
      exact h.same _
    · simp only [Buffered.use, ha, ha']
      exact hs.same _

theorem use (h : Alike c c') (hc : Coherent c) (u : Use σ) : Matches (c.use u) (c'.use u) := by
  cases u with
  | attach d mode => exact h.attach d mode
  | configure o =>
    obtain ⟨hsize, hfilled, hwaiting, hused⟩ := h
    refine Alike.same ?_ _
    exact .intro hsize hfilled hwaiting hused
  | call call => exact (h.perform hc call).map _
  | stream call => exact (h.stream hc call).map _
  | takeError =>
    simp only [Buffered.use, Buffered.takeError, h.error]
    exact h.clearError.same _
  | describe =>
    simp only [Buffered.use, h.describe]
    exact h.same _
  | close => exact h.close hc

theorem useAll (h : Alike c c') (hc : Coherent c) (us : List (Use σ)) :
    (c'.useAll us).1 = (c.useAll us).1 := by
  induction us generalizing c c' with
  | nil => rfl
  | cons u us ih =>
    have hu := hc.use u
    obtain ⟨a, s, s', hs, hs', ha⟩ := h.use hc u
    rw [hs] at hu
    simp only [Buffered.useAll, hs, hs', ha.see, ih ha hu]

end Alike

end Buffered

end ByteChannel
