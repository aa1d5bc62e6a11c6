import Mathlib
import ByteChannel.Device.Cursor
import ByteChannel.Proofs.Buffered.Pushback
import ByteChannel.Proofs.Buffered.Use

/-!
# When a byte may be pushed back again

A byte that was pushed back keeps a second one out until input is taken, the channel is moved or
opened, or input is asked for. To ask is enough: a call that counts no byte as read lets a second
byte in as well, and then two are waiting.
-/

namespace ByteChannel

/-- Whether a use counts input as read whatever there is of it, and be it none. -/
def Use.asks {σ : Type} : Use σ → Bool
  | .call (.read n) => n != 0
  | .call (.fill _) => true
  | .stream (.read n) => n != 0
  | .stream (.consume _) => true
  | .stream (.readThrough _ limit) => limit != 0
  | _ => false

namespace Buffered

variable {σ : Type} {c c' : Buffered σ}

/-- No byte can be pushed back. -/
def Spent (c : Buffered σ) : Prop := c.canRead = true → c.pushedBack = true

theorem Spent.unread_eq (h : Spent c) (b : UInt8) : c.unread b = (false, c) := by
  obtain ⟨hreturn, -⟩ | hsame := c.unread_cases b
  · have hback := h hreturn.canRead
    rw [hreturn.pushedBack] at hback
    cases hback
  · exact hsame

theorem spent_of_unread {b : UInt8} (h : (c.unread b).1 = true) : Spent (c.unread b).2 := by
  obtain ⟨-, -, hback⟩ | hsame := c.unread_cases b
  · exact fun _ => hback
  · rw [hsame] at h
    cases h

variable [Device σ]

def took (c : Buffered σ) : Use σ → Bytes
  | .call call => call.taken (c.perform call).1
  | .stream (.read n) => (c.tryRead n).1.toOption.getD []
  | .stream (.consume n) => if (c.consume? n).isSome then c.ahead.take n else []
  | .stream (.readToEnd limit) => (c.readToEnd limit).1
  | .stream (.readThrough b limit) => (c.readThrough b limit).1.toOption.getD []
  | _ => []

/-- Output, a seek, or a new opening. -/
inductive Departs (c : Buffered σ) : Use σ → Prop
  | attach {d : σ} {mode : OpenMode} {c' : Buffered σ} (h : c.attach d mode = .ok c') :
    Departs c (.attach d mode)
  | write (src : Bytes) : Departs c (.call (.write src))
  | writeByte (b : UInt8) : Departs c (.call (.writeByte b))
  | overflow (b : UInt8) : Departs c (.call (.overflow b))
  | seek (o : Origin) : Departs c (.call (.seek o))
  | tell : Departs c (.call .tell)
  | tryWrite (src : Bytes) : Departs c (.stream (.write src))
  | trySeek (o : Origin) : Departs c (.stream (.seek o))

def steps (c : Buffered σ) : List (Use σ) → List (Buffered σ × Use σ)
  | [] => []
  | u :: us => (c, u) :: (c.use u).2.steps us

/-! ## What leaves the byte where it is -/

theorem pushedBack_refill (c : Buffered σ) : c.refill.pushedBack = c.pushedBack := by
  unfold refill
  split <;> rfl

theorem pushedBack_peek (c : Buffered σ) : c.peek.2.pushedBack = c.pushedBack := by
  unfold peek
  split
  · rfl
  · split
    · rfl
    · split
      · rfl
      · split
        · exact (sameRegions_readDirect { c with filled := 0 } 1).pushedBack
        · exact (pushedBack_refill _).trans (pushedBack_turnToInput c)

theorem pushedBack_peekChunk (c : Buffered σ) : c.peekChunk.2.pushedBack = c.pushedBack := by
  have hpeek := pushedBack_peek c
  unfold peekChunk
  dsimp only
  split
  · split
    · exact hpeek
    · split <;> exact hpeek
  · rfl

theorem pushedBack_sync (c : Buffered σ) : c.sync.2.pushedBack = c.pushedBack := by
  rw [sync_eq]
  split
  · exact (sameRegions_writePending c).pushedBack
  · unfold yieldInput
    split
    · obtain ⟨_, _, _, hd⟩ := discardInput_spec c
      rw [show c.discardInput = _ from hd c.put]
    · rfl

theorem pushedBack_flush (c : Buffered σ) : c.flush.2.pushedBack = c.pushedBack := by
  have hsync := pushedBack_sync c
  unfold flush
  dsimp only
  split
  · rfl
  · split <;> exact hsync

theorem pushedBack_installBuffer (c : Buffered σ) (buffer : Bytes) :
    (c.installBuffer buffer).2.pushedBack = c.pushedBack := by
  have hsync : (if c.isOpen then c.sync else (true, c)).2.pushedBack = c.pushedBack := by
    split
    · exact pushedBack_sync c
    · rfl
  unfold installBuffer
  generalize (if c.isOpen then c.sync else (true, c)) = r at hsync ⊢
  dsimp only
  split
  · rfl
  · split <;> exact hsync

/-! ## What lets no byte in -/

namespace Spent

theorem onward (h : Spent c) (ho : Onward c c') (hback : c'.pushedBack = c.pushedBack) :
    Spent c' := by
  have hmode : c'.mode = c.mode := congrArg Setup.mode ho.setup
  intro hr
  rw [canRead, ho.isOpen, hmode] at hr
  exact hback.trans (h hr)

theorem readByte (h : Spent c) (hnone : c.readByte.1 = none) : Spent c.readByte.2 := by
  have hp := h.onward (onward_peek c) (pushedBack_peek c)
  unfold Buffered.readByte at hnone ⊢
  dsimp only at hnone ⊢
  split at hnone
  · cases hnone
  · exact hp

theorem installBuffer (h : Spent c) (buffer : Bytes) : Spent (c.installBuffer buffer).2 := by
  have hback := pushedBack_installBuffer c buffer
  obtain ⟨_, c', heq, ho⟩ | ⟨c', heq, ho⟩ := installBuffer_spec c buffer
  · rw [heq] at hback ⊢
    exact h.onward ho hback
  · rw [heq] at hback ⊢
    exact (h.onward ho hback : Spent c')

theorem perform (h : Spent c) {call : Call} (htook : call.taken (c.perform call).1 = [])
    (hdeparts : ¬Departs c (.call call)) (hasks : Use.asks (.call call : Use σ) = false) :
    Spent (c.perform call).2 := by
  cases call with
  | read n =>
    have hn : n = 0 := by simpa [Use.asks] using hasks
    have hread : c.read n = ([], c) := if_pos (.inl hn)
    simp only [Buffered.perform, hread]
    exact h
  | readByte =>
    have hnone : c.readByte.1 = none := Option.toList_eq_nil_iff.1 htook
    exact h.readByte hnone
  | peek => exact h.onward (onward_peek c) (pushedBack_peek c)
  | fill n => cases hasks
  | unread b =>
    simp only [Buffered.perform, h.unread_eq b]
    exact h
  | write src => exact absurd (.write src) hdeparts
  | writeByte b => exact absurd (.writeByte b) hdeparts
  | overflow b => exact absurd (.overflow b) hdeparts
  | flush => exact h.onward (onward_flush c) (pushedBack_flush c)
  | seek o => exact absurd (.seek o) hdeparts
  | tell => exact absurd .tell hdeparts
  | install buffer => exact h.installBuffer buffer
  | resize n => exact h.installBuffer _

theorem stream (h : Spent c) {call : Streaming} (htook : c.took (.stream call) = [])
    (hdeparts : ¬Departs c (.stream call)) (hasks : Use.asks (.stream call : Use σ) = false) :
    Spent (c.stream call).2 := by
  cases call with
  | read n =>
    have hn : n = 0 := by simpa [Use.asks] using hasks
    have hread : c.read n = ([], c) := if_pos (.inl hn)
    have hsame : (c.tryRead n).2 = c := by
      unfold tryRead
      split
      · rfl
      · rw [hread, if_neg fun hne => hne.2 hn]
    simp only [Buffered.stream, Prod.map, id_eq, hsame]
    exact h
  | write src => exact absurd (.tryWrite src) hdeparts
  | flush => exact h.onward (onward_flush c) (pushedBack_flush c)
  | seek o => exact absurd (.trySeek o) hdeparts
  | peekChunk => exact h.onward (onward_peekChunk c) (pushedBack_peekChunk c)
  | consume n => cases hasks
  | readToEnd limit =>
    change Spent (c.readToEnd limit).2
    change (c.readToEnd limit).1 = [] at htook
    cases limit with
    | zero =>
      rw [Buffered.readToEnd]
      exact h
    | succ limit =>
      rw [Buffered.readToEnd] at htook ⊢
      rcases hr : c.readByte with ⟨_ | b, c₁⟩
      · have hnone := h.readByte (congrArg Prod.fst hr)
        rw [hr] at hnone
        exact hnone
      · rw [hr] at htook
        cases htook
  | readThrough b limit =>
    have hlimit : limit = 0 := by simpa [Use.asks] using hasks
    rw [hlimit]
    exact h

/-- The step: what takes nothing, moves nothing and asks for nothing lets no byte in. -/
theorem use (h : Spent c) {u : Use σ} (htook : c.took u = []) (hdeparts : ¬Departs c u)
    (hasks : u.asks = false) : Spent (c.use u).2 := by
  cases u with
  | attach d mode =>
    cases ha : c.attach d mode with
    | ok c' => exact absurd (.attach ha) hdeparts
    | error e =>
      simp only [Buffered.use, ha]
      exact h
  | configure o => exact h
  | call call => exact h.perform htook hdeparts hasks
  | stream call => exact h.stream htook hdeparts hasks
  | takeError => exact h
  | describe => exact h
  | close =>
    change Spent c.close.2.1
    obtain ⟨-, heq⟩ | ⟨_, _, _, c', -, -, heq, hclosed, -⟩ := close_spec c
    · rw [heq]
      exact h
    · rw [heq]
      intro hr
      rw [canRead, isOpen, hclosed] at hr
      cases hr

/-- The run: a channel that lets a byte in again did something on the way. -/
theorem useAll (h : Spent c) {us : List (Use σ)} {b : UInt8}
    (hback : ((c.useAll us).2.unread b).1 = true) :
    ∃ s ∈ c.steps us, s.1.took s.2 ≠ [] ∨ Departs s.1 s.2 ∨ s.2.asks = true := by
  induction us generalizing c with
  | nil =>
    rw [useAll, h.unread_eq] at hback
    cases hback
  | cons u us ih =>
    by_cases hu : c.took u ≠ [] ∨ Departs c u ∨ u.asks = true
    · exact ⟨(c, u), List.mem_cons_self, hu⟩
    · obtain ⟨htook, hdeparts, hasks⟩ : c.took u = [] ∧ ¬Departs c u ∧ u.asks = false := by
        simpa only [not_or, not_not, Bool.not_eq_true] using hu
      obtain ⟨s, hs, hcase⟩ := ih (h.use htook hdeparts hasks) hback
      exact ⟨s, List.mem_cons_of_mem _ hs, hcase⟩

end Spent

/-- Between two bytes that are taken back, on whatever channel and with whatever done in between,
input was taken, or the channel was written to, sought or opened again, or input was asked for. -/
theorem pushed_back_again_after_asking (c : Buffered σ) (b b' : UInt8) (us : List (Use σ))
    (hfirst : (c.unread b).1 = true)
    (hsecond : (((c.unread b).2.useAll us).2.unread b').1 = true) :
    ∃ s ∈ (c.unread b).2.steps us, s.1.took s.2 ≠ [] ∨ Departs s.1 s.2 ∨ s.2.asks = true :=
  (spent_of_unread hfirst).useAll hsecond

/-- A read in between takes the first byte. -/
theorem pushed_back_again_after_asking_read :
    let history : List (Use Cursor) := [.attach (.ofBytes [97, 98] 0) { read := true },
      .call .readByte]
    let c := ((withSettings { bufferSize := 4 }).useAll history).2
    let us : List (Use Cursor) := [.call .peek, .call .readByte, .takeError]
    ((c.unread 120).1 = true ∧ (((c.unread 120).2.useAll us).2.unread 121).1 = true) ∧
      ∃ s ∈ (c.unread 120).2.steps us, s.1.took s.2 ≠ [] ∨ Departs s.1 s.2 ∨ s.2.asks = true := by
  intro history c us
  have hfirst : (c.unread 120).1 = true := by
    simp only [c, history]
    cbv
  have hsecond : (((c.unread 120).2.useAll us).2.unread 121).1 = true := by
    simp only [c, history, us]
    cbv
  exact ⟨⟨hfirst, hsecond⟩, pushed_back_again_after_asking c 120 121 us hfirst hsecond⟩

/-- To count no byte as read is enough: a second byte is taken back while the first one waits, and
both are read. -/
theorem pushed_back_twice :
    let history : List (Use Cursor) := [.attach (.ofBytes [97, 98] 0) { read := true },
      .call .readByte]
    let c := ((withSettings { bufferSize := 4 }).useAll history).2
    let c₁ := ((c.unread 120).2.use (.stream (.consume 0))).2
    (c.unread 120).1 = true ∧ c₁.ahead = [120, 98] ∧ (c₁.unread 121).1 = true ∧
      ((c₁.unread 121).2.read 4).1 = [121, 120, 98] := by
  intro history c c₁
  simp only [c₁, c, history]
  exact ⟨by cbv, by cbv, by cbv, by cbv⟩

end Buffered

end ByteChannel
