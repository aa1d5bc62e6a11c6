import ByteChannel.Bytes
import ByteChannel.Origin

/-!
# Files with one position

What a channel means apart from its buffers: bytes, and one position where input is taken and
output is laid. The position may stand behind the bytes; output there fills the gap with zeros.
-/

namespace ByteChannel

structure File where
  bytes : Bytes
  pos : Nat
  deriving DecidableEq, Repr

namespace File

/-- The input still to come. -/
def rest (f : File) : Bytes := f.bytes.drop f.pos

def advance (f : File) (n : Nat) : File := { f with pos := f.pos + n }

def back (f : File) (n : Nat) : File := { f with pos := f.pos - n }

def atEnd (f : File) : File := { f with pos := f.bytes.length }

/-- Writing nothing fills no gap. -/
def write (f : File) (src : Bytes) : File :=
  if src = [] then f else { bytes := overwrite f.bytes f.pos src, pos := f.pos + src.length }

@[simp] theorem bytes_advance (f : File) (n : Nat) : (f.advance n).bytes = f.bytes := rfl

@[simp] theorem pos_advance (f : File) (n : Nat) : (f.advance n).pos = f.pos + n := rfl

@[simp] theorem bytes_back (f : File) (n : Nat) : (f.back n).bytes = f.bytes := rfl

@[simp] theorem pos_back (f : File) (n : Nat) : (f.back n).pos = f.pos - n := rfl

@[simp] theorem advance_zero (f : File) : f.advance 0 = f := rfl

theorem rest_advance (f : File) (n : Nat) : (f.advance n).rest = f.rest.drop n := by
  simp [rest, List.drop_drop]

theorem advance_advance (f : File) (m n : Nat) : (f.advance m).advance n = f.advance (m + n) := by
  simp [advance, Nat.add_assoc]

theorem length_rest (f : File) : f.rest.length = f.bytes.length - f.pos := List.length_drop

/-- Input that is shorter than asked was all there was. -/
theorem rest_advance_take (f : File) {n : Nat} (h : (f.rest.take n).length ≠ n) :
    (f.advance (f.rest.take n).length).rest = [] := by
  have hl : f.rest.length ≤ (f.rest.take n).length := by
    rw [List.length_take] at h ⊢
    omega
  rw [rest_advance, List.drop_eq_nil_of_le hl]

@[simp] theorem write_nil (f : File) : f.write [] = f := if_pos rfl

theorem write_of_ne_nil (f : File) {src : Bytes} (h : src ≠ []) :
    f.write src = { bytes := overwrite f.bytes f.pos src, pos := f.pos + src.length } := if_neg h

theorem pos_write (f : File) (src : Bytes) : (f.write src).pos = f.pos + src.length := by
  by_cases h : src = []
  · simp [h]
  · rw [write_of_ne_nil f h]

/-- Inside the bytes there is no gap to fill. -/
theorem bytes_write (f : File) (src : Bytes) (h : f.pos ≤ f.bytes.length) :
    (f.write src).bytes = overwrite f.bytes f.pos src := by
  by_cases hsrc : src = []
  · rw [hsrc, write_nil, overwrite_nil_new _ h]
  · rw [write_of_ne_nil f hsrc]

/-- Two pieces written one after the other are one piece. -/
theorem write_append (f : File) (first second : Bytes) :
    (f.write first).write second = f.write (first ++ second) := by
  by_cases hf : first = []
  · simp [hf]
  · by_cases hs : second = []
    · simp [hs]
    · have hfs : first ++ second ≠ [] := by simp [hf]
      rw [write_of_ne_nil f hf, write_of_ne_nil _ hs, write_of_ne_nil f hfs, overwrite_append,
        List.length_append, Nat.add_assoc]

theorem length_le_write (f : File) (src : Bytes) : f.bytes.length ≤ (f.write src).bytes.length := by
  by_cases h : src = []
  · simp [h]
  · rw [write_of_ne_nil f h, length_overwrite]
    exact Nat.le_max_left _ _

theorem write_atEnd (f : File) (src : Bytes) :
    (f.atEnd.write src).bytes = f.bytes ++ src := by
  by_cases h : src = []
  · simp [h, atEnd]
  · have hl : f.bytes.length ≤ f.bytes.length + src.length := Nat.le_add_right _ _
    rw [write_of_ne_nil _ h, atEnd, overwrite_eq_take_append_drop _ _ (Nat.le_refl _),
      List.take_length, List.drop_eq_nil_of_le hl, List.append_nil]

end File

end ByteChannel
