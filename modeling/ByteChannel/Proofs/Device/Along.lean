import ByteChannel.Text.Collapsed

/-!
# Along reads and seeks

Whole reads and the scanner of returns ask a device for reads and seeks only. What holds from every
state of a device to the next one along these holds along all of them.
-/

namespace ByteChannel.Device

variable {σ : Type} [Device σ]

/-- A relation that holds from every state of a device to what reads and seeks make of it. -/
structure Along (R : σ → σ → Prop) : Prop where
  refl : ∀ s, R s s
  trans : ∀ {s s' s''}, R s s' → R s' s'' → R s s''
  read : ∀ s n, R s (Device.read s n).2
  seek : ∀ s o, R s (Device.seek s o).2

namespace Along

variable {R : σ → σ → Prop}

theorem readChunk (h : Along R) (s : σ) (n : Nat) : R s (readChunk s n).2 := by
  fun_induction ByteChannel.readChunk s n with
  | case1 s r bs hr => exact h.read s n
  | case2 s r e hr hk ih => exact h.trans (h.read s n) ih
  | case3 s r e hr hk => exact h.read s n

theorem readFully (h : Along R) (s : σ) (n : Nat) : R s (readFully s n).2 := by
  fun_induction ByteChannel.readFully s n with
  | case1 => exact h.refl _
  | case2 s n hn r e hr => exact h.readChunk s n
  | case3 s n hn r hr => exact h.readChunk s n
  | case4 s n hn r bs hr hb rest ih => exact h.trans (h.readChunk s n) ih

theorem settleReturn (h : Along R) (s : σ) : R s (Text.settleReturn s).2 := by
  have hr := h.readFully s 1
  unfold Text.settleReturn
  dsimp only
  split
  · exact hr
  · split
    · exact hr
    · exact h.trans hr (h.seek _ _)

theorem collapseRest (h : Along R) (s : σ) (atEnd : Bool) (error : Option IoError) (rest : Bytes)
    (room : Nat) : R s (Text.collapseRest s atEnd error rest room).2 := by
  fun_induction Text.collapseRest s atEnd error rest room with
  | case1 => exact h.refl _
  | case2 => exact h.refl _
  | case3 => exact h.settleReturn _
  | case4 => exact h.refl _
  | case5 => exact h.readFully _ _
  | case6 =>
    rename_i ih
    exact h.trans (h.readFully _ _) ih
  | case7 =>
    rename_i ih
    exact h.trans (h.readFully _ _) ih
  | case8 =>
    rename_i ih
    exact ih
  | case9 =>
    rename_i ih
    exact ih

theorem readCollapsed (h : Along R) (s : σ) (n : Nat) : R s (Text.readCollapsed s n).2 :=
  h.trans (h.readFully s n) (h.collapseRest _ _ _ _ _)

end Along

end ByteChannel.Device
