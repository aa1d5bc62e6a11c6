/-!
# Modes

How a caller asks for access: the open mode and its set operations, the disposition
towards an existing file, the sharing flags, and the access of a mapping. A mode that
appends or truncates asks for output as much as one that writes.
-/

namespace ByteChannel

structure OpenMode where
  read : Bool := false
  write : Bool := false
  append : Bool := false
  truncate : Bool := false
  binary : Bool := false
  atEnd : Bool := false
  deriving DecidableEq, Repr

namespace OpenMode

def noAccess : OpenMode := {}

instance : Inhabited OpenMode := ⟨noAccess⟩

/-- The mode as a number, with one binary digit per flag. -/
def bits (m : OpenMode) : Nat :=
  m.read.toNat + 2 * m.write.toNat + 4 * m.append.toNat + 8 * m.truncate.toNat +
    16 * m.binary.toNat + 32 * m.atEnd.toNat

def union (a b : OpenMode) : OpenMode :=
  ⟨a.read || b.read, a.write || b.write, a.append || b.append, a.truncate || b.truncate,
    a.binary || b.binary, a.atEnd || b.atEnd⟩

def inter (a b : OpenMode) : OpenMode :=
  ⟨a.read && b.read, a.write && b.write, a.append && b.append, a.truncate && b.truncate,
    a.binary && b.binary, a.atEnd && b.atEnd⟩

def isEmpty (m : OpenMode) : Bool := m == noAccess

/-- Whether every flag of `b` is set in `a`. -/
def contains (a b : OpenMode) : Bool := a.inter b == b

/-- Whether some flag is set in both. -/
def intersects (a b : OpenMode) : Bool := !(a.inter b).isEmpty

def isReadable (m : OpenMode) : Bool := m.read

def isWritable (m : OpenMode) : Bool := m.write || m.append || m.truncate

/-- Whether opening moves the device to its end. -/
def startsAtEnd (m : OpenMode) : Bool := m.append || m.atEnd

end OpenMode

inductive Disposition
  | byMode | createNew | createAlways | openExisting | openAlways | truncateExisting
  deriving DecidableEq, Repr, Inhabited

namespace Disposition

/-- Truncation creates or empties the file, other output creates a missing one, and input alone
needs the file. -/
def ofMode (m : OpenMode) : Disposition :=
  if m.truncate then .createAlways else if m.isWritable then .openAlways else .openExisting

def resolve (d : Disposition) (m : OpenMode) : Disposition :=
  if d = .byMode then ofMode m else d

end Disposition

structure Sharing where
  read : Bool := false
  write : Bool := false
  delete : Bool := false
  deriving DecidableEq, Repr

namespace Sharing

def all : Sharing := ⟨true, true, true⟩

instance : Inhabited Sharing := ⟨all⟩

def bits (s : Sharing) : Nat := s.read.toNat + 2 * s.write.toNat + 4 * s.delete.toNat

def contains (a b : Sharing) : Bool :=
  (a.read || !b.read) && (a.write || !b.write) && (a.delete || !b.delete)

end Sharing

/-- A mapping shows the file, shares its changes with it, or keeps them to itself. -/
inductive MapMode
  | readOnly | readWrite | copyOnWrite
  deriving DecidableEq, Repr, Inhabited

namespace MapMode

def forChannel (m : OpenMode) (keepPrivate : Bool) : MapMode :=
  if m.isWritable then if keepPrivate then .copyOnWrite else .readWrite else .readOnly

def isWritable (m : MapMode) : Bool := m != .readOnly

theorem isWritable_forChannel (m : OpenMode) (keepPrivate : Bool) :
    (forChannel m keepPrivate).isWritable = m.isWritable := by
  unfold forChannel isWritable
  cases m.isWritable <;> cases keepPrivate <;> rfl

end MapMode

end ByteChannel
