import ByteChannel.Disk
import ByteChannel.Limits
import ByteChannel.Mode

/-!
# Opening files

What a mode and a disposition ask of the file system, which requests are refused before
it is touched, and what a granted request does to the directory.
-/

namespace ByteChannel

structure OpenRequest where
  read : Bool := false
  write : Bool := false
  append : Bool := false
  create : Bool := false
  createNew : Bool := false
  truncate : Bool := false
  deriving DecidableEq, Repr

namespace OpenRequest

def ofMode (m : OpenMode) (disposition : Disposition) : OpenRequest :=
  let d := disposition.resolve m
  { read := m.isReadable
    write := m.isWritable && !m.append
    append := m.append
    create := d == .createAlways || d == .openAlways
    createNew := d == .createNew
    truncate := d == .createAlways || d == .truncateExisting }

def existing (read write : Bool) : OpenRequest := { read := read, write := write }

def hasOutput (r : OpenRequest) : Bool := r.write || r.append

def alters (r : OpenRequest) : Bool := r.create || r.createNew || r.truncate

/-- A request needs some access, an altering one needs output, and what is cut off cannot also be
appended to. -/
def check (r : OpenRequest) : Except IoError Unit :=
  if r.alters && !r.hasOutput then .error .creationNeedsOutput
  else if !r.read && !r.hasOutput then .error .noAccessRequested
  else if r.append && r.truncate && !r.createNew then .error .creationNeedsOutput
  else .ok ()

end OpenRequest

/-- An open file with its access and its position. A handle on the directory names no file. -/
structure OpenFile where
  name : Option String
  path : String
  readable : Bool
  writable : Bool
  appends : Bool
  pos : Nat := 0
  deriving DecidableEq, Repr

namespace Disk

/-- The unit in which a disk keeps files. -/
def blockSize : Nat := 4096

def length (d : Disk) (name : Option String) : Nat :=
  match name with
  | some name => (d.store name).length
  | none => blockSize

def openFile (d : Disk) (path : String) (r : OpenRequest) : Except IoError OpenFile × Disk :=
  let opened (name : Option String) : OpenFile :=
    { name := name, path := path, readable := r.read, writable := r.hasOutput, appends := r.append }
  if path.contains '\x00' then (.error .nulInPath, d)
  else
    match r.check with
    | .error e => (.error e, d)
    | .ok () =>
      match d.locate path with
      | .error e => (.error e, d)
      | .ok .directory =>
        if r.createNew then (.error .fileExists, d)
        else if r.hasOutput then (.error .isADirectory, d)
        else (.ok (opened none), d)
      | .ok (.file name) =>
        if r.createNew then (.error .fileExists, d)
        else (.ok (opened (some name)), if r.truncate then d.put name .empty else d)
      | .ok (.free name) =>
        if r.create || r.createNew then (.ok (opened (some name)), d.put name .empty)
        else (.error .notFound, d)
      | .ok (.branch failure) =>
        (.error (if r.create || r.createNew then .isADirectory else failure), d)

def read? (d : Disk) (path : String) : Option Bytes :=
  match (d.openFile path (.existing true false)).1 with
  | .ok file => file.name.map d.bytes
  | .error _ => none

def replace (d : Disk) (path : String) (bs : Bytes) : Except IoError Unit × Disk :=
  let r := d.openFile path { write := true, create := true, truncate := true }
  match r.1 with
  | .ok file => (.ok (), (file.name.map fun name => r.2.put name (.ofBytes bs)).getD r.2)
  | .error e => (.error e, d)

end Disk

end ByteChannel
