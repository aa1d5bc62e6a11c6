import ByteChannel.Error
import ByteChannel.Limits

/-!
# Ranges and displacements

Two checks on 64-bit numbers. `checkRange` admits a range that lies inside a total, and
`clampOffset` moves a position by a signed amount and keeps it inside `[0, limit]`. Sums
saturate at the largest word: a displacement never shows it, but in a total of that many
bytes a range counts as ending at the last one.
-/

namespace ByteChannel

def checkRange (offset len total : Nat) : Except ChannelError Unit :=
  if total < offset ∨ total < addSat offset len then .error (.outOfBounds offset len total)
  else .ok ()

def clampOffset (base : Nat) (delta : Int) (limit : Nat) : Nat :=
  min (if delta < 0 then base - delta.natAbs else addSat base delta.natAbs) limit

theorem clampOffset_le (base : Nat) (delta : Int) (limit : Nat) :
    clampOffset base delta limit ≤ limit := Nat.min_le_right _ _

/-- From inside the limit the displacement is exact. -/
theorem clampOffset_eq {base limit : Nat} (delta : Int) (hb : base ≤ limit) (hl : limit ≤ maxWord) :
    (clampOffset base delta limit : Int) = max 0 (min (base + delta) limit) := by
  unfold clampOffset addSat
  split <;> omega

end ByteChannel
