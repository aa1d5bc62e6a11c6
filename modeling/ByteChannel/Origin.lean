import ByteChannel.Bounds

/-!
# Seek arguments

Where a seek counts from, and which of a channel's two positions it moves. A channel of
fixed size clamps the target into the size, a growing device takes it as it is.
-/

namespace ByteChannel

inductive Origin
  | start (offset : Nat)
  | current (delta : Int)
  | finish (delta : Int)
  deriving DecidableEq, Repr

namespace Origin

/-- The target in exact integers, for a position and a size. -/
def target : Origin → Nat → Nat → Int
  | start offset, _, _ => offset
  | current delta, pos, _ => pos + delta
  | finish delta, _, size => size + delta

/-- The target in words, clamped to the size. -/
def clampedTarget : Origin → Nat → Nat → Nat
  | start offset, _, size => min offset size
  | current delta, pos, size => clampOffset pos delta size
  | finish delta, _, size => clampOffset size delta size

/-- The target, if it lies between 0 and `top`. -/
def targetWithin? (o : Origin) (pos size top : Nat) : Option Nat :=
  let t := o.target pos size
  if 0 ≤ t ∧ t ≤ top then some t.toNat else none

theorem clampedTarget_le (o : Origin) (pos size : Nat) : o.clampedTarget pos size ≤ size := by
  cases o with
  | start offset => exact Nat.min_le_right _ _
  | current delta => exact clampOffset_le _ _ _
  | finish delta => exact clampOffset_le _ _ _

/-- No position of a word-sized channel shows that sums saturate. -/
theorem clampedTarget_eq (o : Origin) {pos size : Nat} (hp : pos ≤ size) (hs : size ≤ maxWord) :
    (o.clampedTarget pos size : Int) = max 0 (min (o.target pos size) size) := by
  cases o with
  | start offset =>
    simp only [clampedTarget, target]
    omega
  | current delta => exact clampOffset_eq delta hp hs
  | finish delta => exact clampOffset_eq delta (Nat.le_refl _) hs

theorem targetWithin?_eq_some_iff (o : Origin) (pos size top t : Nat) :
    o.targetWithin? pos size top = some t ↔ o.target pos size = t ∧ t ≤ top := by
  simp only [targetWithin?]
  split
  · simp only [Option.some.injEq]
    omega
  · simp only [reduceCtorEq, false_iff]
    omega

end Origin

inductive Side
  | get | put | both
  deriving DecidableEq, Repr

namespace Side

instance : Inhabited Side := ⟨both⟩

def includesGet (s : Side) : Bool := s != put

def includesPut (s : Side) : Bool := s != get

end Side

end ByteChannel
