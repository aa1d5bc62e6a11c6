import ByteChannel.Bounds
import ByteChannel.Disk.Request

/-!
# Mappings

A file opened for mapping, with the length it had then. An opening is counted by those
who hold it: each mapping handle, and each view attached to it. The table keeps all
openings beside the disk, and knows which windows and which write-backs the system will
refuse.
-/

namespace ByteChannel

structure Opening where
  /-- The file; none for the directory, which no window can show. -/
  name : Option String
  path : Option String
  length : Nat
  mode : MapMode
  readable : Bool
  writable : Bool
  holders : Nat := 1
  deriving DecidableEq, Repr

structure MapTable where
  disk : Disk
  openings : List Opening := []
  /-- Whether the system has no memory for the window asked for after so many others. -/
  refusesWindow : Nat → Bool := fun _ => false
  /-- Whether the system fails the write-back asked for after so many others. -/
  refusesSync : Nat → Bool := fun _ => false
  windowsAsked : Nat := 0
  syncsAsked : Nat := 0

namespace MapTable

def opening? (t : MapTable) (i : Nat) : Option Opening := t.openings[i]?

def file (t : MapTable) (o : Opening) : Store := (o.name.map t.disk.store).getD .empty

def setFile (t : MapTable) (o : Opening) (s : Store) : MapTable :=
  match o.name with
  | some name => { t with disk := t.disk.put name s }
  | none => t

def adjust (t : MapTable) (i : Nat) (f : Nat → Nat) : MapTable :=
  { t with openings := t.openings.modify i fun o => { o with holders := f o.holders } }

def retain (t : MapTable) (i : Nat) : MapTable := t.adjust i (· + 1)

def release (t : MapTable) (i : Nat) : MapTable := t.adjust i (· - 1)

/-- A window needs what was opened for reading, and one that shares its changes needs what was
opened for writing too. The rights count before the question whether it is a file. -/
def denies (o : Opening) : Option IoError :=
  if !o.readable || (o.mode == .readWrite && !o.writable) then some .permissionDenied
  else if o.name.isNone then some .noSuchDevice
  else none

/-- Asks for a window. -/
def askWindow (t : MapTable) (o : Opening) : Option IoError × MapTable :=
  ((denies o).or (if t.refusesWindow t.windowsAsked then some .noMemory else none),
    { t with windowsAsked := t.windowsAsked + 1 })

/-- Asks for a write-back. -/
def askSync (t : MapTable) : Option IoError × MapTable :=
  (if t.refusesSync t.syncsAsked then some .inputOutput else none,
    { t with syncsAsked := t.syncsAsked + 1 })

end MapTable

/-- A handle on an opening, or on nothing. -/
structure Mapping where
  holds : Option Nat := none
  deriving DecidableEq, Repr

namespace Mapping

def ofOpening (t : MapTable) (o : Opening) : Mapping × MapTable :=
  (⟨some t.openings.length⟩, { t with openings := t.openings ++ [o] })

def openPath (t : MapTable) (path : String) (mode : MapMode) :
    Except ChannelError Mapping × MapTable :=
  let r := t.disk.openFile path (.existing true (mode == .readWrite))
  match r.1 with
  | .error e => (.error (.io e), t)
  | .ok file =>
    let m := ofOpening t
      { name := file.name
        path := some path
        length := t.disk.length file.name
        mode := mode
        readable := file.readable
        writable := file.writable }
    (.ok m.1, m.2)

/-- Maps an open file, or so much of it as `size` says. A mapping never grows its file. -/
def ofFile (t : MapTable) (file : OpenFile) (mode : MapMode) (size : Option Nat) :
    Except ChannelError Mapping × MapTable :=
  let fileLength := t.disk.length file.name
  let length := size.getD fileLength
  match checkRange 0 length fileLength with
  | .error e => (.error e, t)
  | .ok () =>
    let m := ofOpening t
      { name := file.name
        path := none
        length := length
        mode := mode
        readable := file.readable
        writable := file.writable }
    (.ok m.1, m.2)

def opening? (m : Mapping) (t : MapTable) : Option Opening := m.holds.bind t.opening?

def isOpen (m : Mapping) : Bool := m.holds.isSome

def size (m : Mapping) (t : MapTable) : Nat := ((m.opening? t).map (·.length)).getD 0

def mode? (m : Mapping) (t : MapTable) : Option MapMode := (m.opening? t).map (·.mode)

def isWritable (m : Mapping) (t : MapTable) : Bool := ((m.mode? t).map (·.isWritable)).getD false

def path? (m : Mapping) (t : MapTable) : Option String := (m.opening? t).bind (·.path)

def holderCount (m : Mapping) (t : MapTable) : Nat := ((m.opening? t).map (·.holders)).getD 0

/-- One more handle on the same opening. -/
def clone (m : Mapping) (t : MapTable) : Mapping × MapTable := (m, (m.holds.map t.retain).getD t)

/-- Gives up this handle. Views bound before keep the opening. -/
def close (m : Mapping) (t : MapTable) : Mapping × MapTable :=
  ({}, (m.holds.map t.release).getD t)

end Mapping

end ByteChannel
