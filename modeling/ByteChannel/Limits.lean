/-!
# Sizes and limits

Lengths and positions are natural numbers. Where a 64-bit word bounds them the bound
is one of the constants here, and a sum that may not leave the word saturates. The size of
a page is the system's own; all that is known of it is that it is not zero.
-/

namespace ByteChannel

def maxWord : Nat := 0xFFFF_FFFF_FFFF_FFFF

/-- What the system tells of its memory. -/
class Paging where
  size : Nat
  size_pos : 0 < size

def pageSize [p : Paging] : Nat := p.size

theorem pageSize_pos [p : Paging] : 0 < pageSize := p.size_pos

/-- The pages that a run gets where none are given. -/
instance usualPaging : Paging := ⟨4096, by decide⟩

/-- Windows may start at any multiple of this. -/
def allocationGranularity [Paging] : Nat := pageSize

def defaultBufferSize : Nat := 8192

def addSat (a b : Nat) : Nat := min (a + b) maxWord

theorem addSat_eq_add {a b : Nat} (h : a + b ≤ maxWord) : addSat a b = a + b :=
  Nat.min_eq_left h

end ByteChannel
