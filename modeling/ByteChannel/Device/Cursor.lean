import ByteChannel.Device
import ByteChannel.Store

/-!
# Bytes with one position

The plainest device: bytes that grow, and a position that may lie past their end. It
moves as much as it is asked and fails only where a seek leaves the words.
-/

namespace ByteChannel

structure Cursor where
  store : Store
  pos : Nat
  deriving DecidableEq, Repr

namespace Cursor

def ofBytes (bs : Bytes) (pos : Nat) : Cursor := ⟨.ofBytes bs, pos⟩

def bytes (c : Cursor) : Bytes := c.store.bytes

def read (c : Cursor) (n : Nat) : Bytes × Cursor :=
  let bs := c.store.slice c.pos (c.pos + n)
  (bs, { c with pos := c.pos + bs.length })

def write (c : Cursor) (src : Bytes) : Cursor :=
  { store := c.store.overwrite c.pos src, pos := c.pos + src.length }

def seek (c : Cursor) (o : Origin) : Except IoError Nat × Cursor :=
  match o.targetWithin? c.pos c.store.length maxWord with
  | some pos => (.ok pos, { c with pos := pos })
  | none => (.error .seekOutOfRange, c)

@[simp]
theorem bytes_ofBytes (bs : Bytes) (pos : Nat) : (ofBytes bs pos).bytes = bs :=
  Store.bytes_ofBytes bs

theorem fst_read (c : Cursor) (n : Nat) : (c.read n).1 = slice c.bytes c.pos (c.pos + n) :=
  Store.slice_eq _ _ _

@[simp]
theorem bytes_write (c : Cursor) (src : Bytes) :
    (c.write src).bytes = overwrite c.bytes c.pos src :=
  Store.bytes_overwrite _ _ _

theorem length_read_le (c : Cursor) (n : Nat) : (c.read n).1.length ≤ n := by
  rw [fst_read, length_slice]
  omega

instance : Device Cursor where
  read c n := let r := c.read n; (.ok r.1, r.2)
  write c src := (.ok src.length, c.write src)
  seek := seek
  close c := (.ok (), c)
  patience _ := 0
  length_read_le h := by
    cases h
    exact length_read_le _ _
  patience_read_lt h := by cases h
  patience_write_lt h := by cases h

instance : WritesWithin Cursor where
  write_le h := by
    cases h
    exact Nat.le_refl _

end Cursor

end ByteChannel
