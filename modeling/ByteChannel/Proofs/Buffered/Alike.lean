import ByteChannel.Proofs.Buffered.CoherentCalls

/-!
# What a channel never looks at

Two channels are alike where they differ only in the cell while it is not in use, and in the buffer
outside what was read ahead and what waits to be written. No operation tells them apart: it answers
the same, asks the device for the same, and leaves them alike.
-/

namespace ByteChannel

/-- Two runs of bytes with the same first `m`. -/
def SameTo (m : Nat) (bs bs' : Bytes) : Prop := ∀ i < m, bs'[i]? = bs[i]?

namespace SameTo

variable {m k : Nat} {bs bs' : Bytes}

theorem zero (bs bs' : Bytes) : SameTo 0 bs bs' := fun _ hi => absurd hi (Nat.not_lt_zero _)

theorem mono (h : SameTo m bs bs') (hk : k ≤ m) : SameTo k bs bs' :=
  fun i hi => h i (Nat.lt_of_lt_of_le hi hk)

theorem slice (h : SameTo m bs bs') (start : Nat) {stop : Nat} (hs : stop ≤ m) :
    slice bs' start stop = slice bs start stop := by
  apply List.ext_getElem?
  intro i
  rw [getElem?_slice, getElem?_slice]
  by_cases hi : i < stop - start
  · rw [if_pos hi, if_pos hi, h _ (by omega)]
  · rw [if_neg hi, if_neg hi]

theorem take (h : SameTo m bs bs') (hk : k ≤ m) : bs'.take k = bs.take k := by
  have hs := h.slice 0 hk
  rwa [ByteChannel.slice, ByteChannel.slice, List.drop_zero, List.drop_zero, Nat.sub_zero] at hs

theorem getD (h : SameTo m bs bs') {i : Nat} (hi : i < m) (b : UInt8) :
    bs'.getD i b = bs.getD i b := by
  rw [List.getD_eq_getElem?_getD, List.getD_eq_getElem?_getD, h i hi]

/-- Bytes laid over both do not part them, and join them where they were laid. -/
theorem overwrite {pos : Nat} (hl : bs'.length = bs.length) (new : Bytes)
    (h : ∀ i < m, pos ≤ i ∧ i < pos + new.length ∨ bs'[i]? = bs[i]?) :
    SameTo m (overwrite bs pos new) (overwrite bs' pos new) := by
  intro i hi
  rw [getElem?_overwrite_of_any, getElem?_overwrite_of_any, hl]
  rcases h i hi with hin | hsame
  · rw [if_neg (Nat.not_lt.2 hin.1), if_neg (Nat.not_lt.2 hin.1), if_pos hin.2, if_pos hin.2]
  · rw [hsame]

theorem overwrite_both {pos : Nat} (h : SameTo m bs bs') (hl : bs'.length = bs.length)
    (new : Bytes) :
    SameTo m (ByteChannel.overwrite bs pos new) (ByteChannel.overwrite bs' pos new) :=
  overwrite hl new fun i hi => .inr (h i hi)

theorem overwrite_add {pos : Nat} (h : SameTo pos bs bs') (hl : bs'.length = bs.length)
    (new : Bytes) : SameTo (pos + new.length) (ByteChannel.overwrite bs pos new)
      (ByteChannel.overwrite bs' pos new) := by
  refine overwrite hl new fun i hi => ?_
  by_cases hp : i < pos
  · exact .inr (h i hp)
  · exact .inl ⟨by omega, hi⟩

end SameTo

namespace Buffered

variable {σ : Type}

/-- The second channel is the first one with another buffer and cell, of which what is in use is the
same. -/
inductive Alike (c : Buffered σ) : Buffered σ → Prop
  | intro {buffer : Bytes} {cell : UInt8} (size : buffer.length = c.buffer.length)
      (filled : SameTo c.filled c.buffer buffer) (waiting : SameTo c.put.next c.buffer buffer)
      (used : c.onCell = true → cell = c.cell) : Alike c { c with buffer := buffer, cell := cell }

/-- The same answer, from channels that stay alike. -/
def Matches {α : Type} (r r' : α × Buffered σ) : Prop :=
  ∃ a s s', r = (a, s) ∧ r' = (a, s') ∧ Alike s s'

variable {c c' : Buffered σ} {α : Type}

theorem Alike.same (h : Alike c c') (a : α) : Matches (a, c) (a, c') := ⟨a, c, c', rfl, rfl, h⟩

theorem Matches.snd {r r' : α × Buffered σ} (h : Matches r r') : Alike r.2 r'.2 := by
  obtain ⟨a, s, s', rfl, rfl, hs⟩ := h
  exact hs

theorem Matches.map {β : Type} {r r' : α × Buffered σ} (h : Matches r r') (f : α → β) :
    Matches (r.map f id) (r'.map f id) := by
  obtain ⟨a, s, s', rfl, rfl, hs⟩ := h
  exact hs.same (f a)

namespace Alike

theorem device (h : Alike c c') : c'.device = c.device := by
  cases h
  rfl

theorem mode (h : Alike c c') : c'.mode = c.mode := by
  cases h
  rfl

theorem text (h : Alike c c') : c'.text = c.text := by
  cases h
  rfl

theorem get (h : Alike c c') : c'.get = c.get := by
  cases h
  rfl

theorem onCell (h : Alike c c') : c'.onCell = c.onCell := by
  cases h
  rfl

theorem put (h : Alike c c') : c'.put = c.put := by
  cases h
  rfl

theorem filled_eq (h : Alike c c') : c'.filled = c.filled := by
  cases h
  rfl

theorem error (h : Alike c c') : c'.error = c.error := by
  cases h
  rfl

theorem isOpen (h : Alike c c') : c'.isOpen = c.isOpen := by
  cases h
  rfl

theorem canRead (h : Alike c c') : c'.canRead = c.canRead := by
  cases h
  rfl

theorem canWrite (h : Alike c c') : c'.canWrite = c.canWrite := by
  cases h
  rfl

theorem unreadCount (h : Alike c c') : c'.unreadCount = c.unreadCount := by
  cases h
  rfl

theorem size (h : Alike c c') : c'.buffer.length = c.buffer.length := by
  cases h
  assumption

theorem sameTo_filled (h : Alike c c') : SameTo c.filled c.buffer c'.buffer := by
  cases h
  assumption

theorem coherent (h : Alike c c') (hc : Coherent c) : Coherent c' := by
  obtain ⟨hsize, _, _, _⟩ := h
  exact ⟨hc.1, hc.2, hc.3, hc.4, hsize.symm ▸ hc.5, fun hp => (hc.6 hp).trans hsize.symm, hc.7,
    hc.8, hc.9, hc.10⟩

theorem buffer_eq_nil (h : Alike c c') : c'.buffer = [] ↔ c.buffer = [] := by
  rw [← List.length_eq_zero_iff, h.size, List.length_eq_zero_iff]

theorem describe (h : Alike c c') : c'.describe = c.describe := by
  unfold Buffered.describe bufferSize
  rw [h.isOpen, h.mode, h.text, h.size, h.get, h.put]

theorem pushedBack (h : Alike c c') (b : Bool) :
    Alike { c with pushedBack := b } { c' with pushedBack := b } := by
  obtain ⟨hsize, hfilled, hwaiting, hused⟩ := h
  exact .intro hsize hfilled hwaiting hused

theorem clearError (h : Alike c c') : Alike { c with error := none } { c' with error := none } := by
  obtain ⟨hsize, hfilled, hwaiting, hused⟩ := h
  exact .intro hsize hfilled hwaiting hused

theorem shut (h : Alike c c') :
    Alike (σ := σ)
      { c with device := none, mode := .noAccess, expander := none, pushedBack := false }
      { c' with device := none, mode := .noAccess, expander := none, pushedBack := false } := by
  obtain ⟨hsize, hfilled, hwaiting, hused⟩ := h
  exact .intro hsize hfilled hwaiting hused

theorem closePut (h : Alike c c') : Alike { c with put := .empty } { c' with put := .empty } := by
  obtain ⟨hsize, hfilled, _, hused⟩ := h
  exact .intro hsize hfilled (.zero _ _) hused

theorem forget (h : Alike c c') : Alike { c with filled := 0 } { c' with filled := 0 } := by
  obtain ⟨hsize, _, hwaiting, hused⟩ := h
  exact .intro hsize (.zero _ _) hwaiting hused

theorem offCell (h : Alike c c') :
    Alike { c with onCell := false } { c' with onCell := false } := by
  obtain ⟨hsize, hfilled, hwaiting, _⟩ := h
  exact .intro hsize hfilled hwaiting fun hcell => by cases hcell

/-- The get region goes over what was read ahead. -/
theorem showAhead (h : Alike c c') (k : Nat) :
    Alike { c with get := .clamped 0 k c.filled } { c' with get := .clamped 0 k c'.filled } := by
  obtain ⟨hsize, hfilled, hwaiting, hused⟩ := h
  exact .intro hsize hfilled hwaiting hused

theorem advance (h : Alike c c') (n : Nat) : Alike (c.advance n) (c'.advance n) := by
  obtain ⟨hsize, hfilled, hwaiting, hused⟩ := h
  exact .intro hsize hfilled hwaiting hused

theorem reset (h : Alike c c') : Alike c.reset c'.reset := by
  obtain ⟨hsize, _, _, _⟩ := h
  unfold Buffered.reset wholeBuffer
  simp only [hsize]
  refine .intro hsize (.zero _ _) ?_ fun hc => by cases hc
  dsimp only
  by_cases hw : c.mode.isWritable = true
  · simp only [if_pos hw]
    exact .zero _ _
  · simp only [if_neg hw]
    exact .zero _ _

theorem flushError (h : Alike c c') : Matches c.flushError c'.flushError := by
  have hs := h.clearError
  unfold Buffered.flushError
  rw [h.error]
  exact hs.same _

/-- Every byte at hand is one that was read ahead, or is in the cell. -/
theorem current (h : Alike c c') (hc : Coherent c) (ha : 0 < c.get.available) :
    c'.current = c.current := by
  obtain ⟨_, hfilled, _, hused⟩ := h
  unfold Buffered.current
  by_cases hcell : c.onCell = true
  · simp only [if_pos hcell]
    exact hused hcell
  · have hl := hc.get_limit (by simpa using hcell)
    simp only [Region.available] at ha
    simp only [if_neg hcell]
    exact hfilled.getD (by omega) 0

theorem ahead (h : Alike c c') (hc : Coherent c) : c'.ahead = c.ahead := by
  obtain ⟨_, hfilled, _, hused⟩ := h
  unfold Buffered.ahead
  by_cases hcell : c.onCell = true
  · simp only [if_pos hcell]
    rw [hused hcell]
  · have hl := hc.get_limit (by simpa using hcell)
    simp only [if_neg hcell]
    exact hfilled.slice _ (Nat.le_of_eq hl)

theorem unreadSpan (h : Alike c c') (hc : Coherent c) : c'.unreadSpan = c.unreadSpan := by
  obtain ⟨_, hfilled, _, hused⟩ := h
  unfold Buffered.unreadSpan
  by_cases hcell : c.onCell = true
  · have htake := hfilled.take (Nat.le_refl _)
    simp only [Buffered.unreadCount, if_pos hcell, hused hcell, htake]
  · have hl := hc.get_limit (by simpa using hcell)
    have hslice := hfilled.slice c.get.next (Nat.le_of_eq hl)
    simp only [Buffered.unreadCount, if_neg hcell, hslice]

theorem pending (h : Alike c c') : c'.pending = c.pending := by
  obtain ⟨_, _, hwaiting, _⟩ := h
  exact hwaiting.slice _ (Nat.le_refl _)

theorem openPut (h : Alike c c') : Alike c.openPut c'.openPut := by
  obtain ⟨hsize, hfilled, hwaiting, hused⟩ := h
  rw [openPut_spec, openPut_spec]
  unfold wholeBuffer
  by_cases hp : c.put.isCollapsed = true
  · simp only [if_pos hp, hsize]
    exact .intro hsize hfilled (.zero _ _) hused
  · simp only [if_neg hp]
    exact .intro hsize hfilled hwaiting hused

theorem place (h : Alike c c') (bs : Bytes) : Alike (c.place bs) (c'.place bs) := by
  obtain ⟨hsize, hfilled, hwaiting, hused⟩ := h
  refine .intro ?_ (hfilled.overwrite_both hsize bs)
    ((hwaiting.overwrite_add hsize bs).mono (Nat.min_le_left _ _)) hused
  simp only [Buffered.place, length_overwrite, hsize]

theorem unread (h : Alike c c') (b : UInt8) : Matches (c.unread b) (c'.unread b) := by
  obtain ⟨hsize, hfilled, hwaiting, hused⟩ := id h
  unfold Buffered.unread Buffered.canRead Buffered.isOpen
  dsimp only
  by_cases hr : (c.device.isSome && c.mode.isReadable) = false ∨ c.pushedBack = true ∨
      c.put.isCollapsed = false
  · rw [if_pos hr, if_pos hr]
    exact h.same false
  rw [if_neg hr, if_neg hr]
  cases c.get.stepBack? with
  | none =>
    by_cases hcell : c.onCell = true
    · simp only [if_pos hcell]
      exact h.same false
    · simp only [if_neg hcell]
      refine Alike.same ?_ true
      exact .intro hsize hfilled hwaiting fun _ => rfl
  | some get =>
    by_cases hcell : c.onCell = true
    · simp only [if_pos hcell]
      refine Alike.same ?_ true
      exact .intro hsize hfilled hwaiting fun _ => rfl
    · simp only [if_neg hcell]
      refine Alike.same ?_ true
      refine .intro ?_ (hfilled.overwrite_both hsize _) (hwaiting.overwrite_both hsize _)
        fun hc => absurd hc hcell
      simp only [length_overwrite, hsize]

theorem takeCell (h : Alike c c') : Matches c.takeCell c'.takeCell := by
  obtain ⟨hsize, hfilled, hwaiting, hused⟩ := id h
  unfold Buffered.takeCell
  by_cases hcell : c.onCell = true
  · simp only [if_pos hcell, hused hcell]
    refine Alike.same ?_ _
    exact .intro hsize hfilled hwaiting fun hc => by cases hc
  · simp only [if_neg hcell]
    exact h.same []

/-- What was read ahead is the same, up to where it ends. -/
theorem takeAhead (h : Alike c c') (hl : c.get.limit = c.filled) (n : Nat) :
    Matches (c.takeAhead n) (c'.takeAhead n) := by
  obtain ⟨hsize, hfilled, hwaiting, hused⟩ := h
  have hle := c.get.next_le_limit
  have hk : c.get.next + min n c.get.available ≤ c.filled := by
    simp only [Region.available]
    omega
  refine ⟨_, _, _, rfl, Prod.ext (hfilled.slice _ hk) rfl, ?_⟩
  exact .intro hsize hfilled hwaiting hused

end Alike

end Buffered

end ByteChannel
