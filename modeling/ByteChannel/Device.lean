import ByteChannel.Bytes
import ByteChannel.Origin

/-!
# Devices

A device is what a channel moves bytes from and to: it reads, writes, seeks and closes,
may move less than asked, and may fail at any call. Its laws say that a read never exceeds
what was asked, and that only finitely many calls in a row are interrupted: each
interruption uses up some of the device's patience. Nothing holds a device to what it
counts as written; one that never counts more than it was given writes within.
-/

namespace ByteChannel

class Device (σ : Type) where
  /-- Up to `n` bytes; none means the end. -/
  read : σ → Nat → Except IoError Bytes × σ
  /-- How many bytes it counts as taken, from the first on. -/
  write : σ → Bytes → Except IoError Nat × σ
  seek : σ → Origin → Except IoError Nat × σ
  close : σ → Except IoError Unit × σ
  patience : σ → Nat
  length_read_le : ∀ {s n bs}, (read s n).1 = .ok bs → bs.length ≤ n
  patience_read_lt : ∀ {s n e}, (read s n).1 = .error e → e.kind = .interrupted →
    patience (read s n).2 < patience s
  patience_write_lt : ∀ {s src e}, (write s src).1 = .error e → e.kind = .interrupted →
    patience (write s src).2 < patience s

class WritesWithin (σ : Type) [Device σ] : Prop where
  write_le : ∀ {s : σ} {src k}, (Device.write s src).1 = .ok k → k ≤ src.length

/-- A device lent to a channel: closing the channel leaves it as it is. -/
structure Lent (σ : Type) where
  device : σ

namespace Lent

variable {σ : Type}

instance [Device σ] : Device (Lent σ) where
  read s n := let r := Device.read s.device n; (r.1, ⟨r.2⟩)
  write s src := let r := Device.write s.device src; (r.1, ⟨r.2⟩)
  seek s o := let r := Device.seek s.device o; (r.1, ⟨r.2⟩)
  close s := (.ok (), s)
  patience s := Device.patience s.device
  length_read_le h := Device.length_read_le h
  patience_read_lt h := Device.patience_read_lt h
  patience_write_lt h := Device.patience_write_lt h

end Lent

end ByteChannel
