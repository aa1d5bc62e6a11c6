import ByteChannel.Device
import ByteChannel.Disk.Request
import ByteChannel.Disk.WidePath

/-!
# Files as devices

An open file on a disk. Reads and writes happen at the position, appended bytes at the
end of the file. A position that no file can have is refused, and nothing is written at the last.
A file is opened by its path, plain or wide.
-/

namespace ByteChannel

structure FileDevice where
  disk : Disk
  file : OpenFile
  deriving DecidableEq, Repr

namespace FileDevice

/-- The highest position in a file, `2 ^ 32 - 1` blocks. -/
def maxPosition : Nat := 0xFFFF_FFFF * Disk.blockSize

def length (s : FileDevice) : Nat := s.disk.length s.file.name

def read (s : FileDevice) (n : Nat) : Except IoError Bytes × FileDevice :=
  if s.file.readable = false then (.error .badDescriptor, s)
  else
    match s.file.name with
    | none => (.error .isADirectory, s)
    | some name =>
      let bs := (s.disk.store name).slice s.file.pos (s.file.pos + n)
      (.ok bs, { s with file := { s.file with pos := s.file.pos + bs.length } })

def write (s : FileDevice) (src : Bytes) : Except IoError Nat × FileDevice :=
  if s.file.writable = false then (.error .badDescriptor, s)
  else
    match s.file.name with
    | none => (.error .badDescriptor, s)
    | some name =>
      if src = [] then (.ok 0, s)
      else
        let pos := if s.file.appends then s.length else s.file.pos
        if maxPosition ≤ pos then (.error .fileTooLarge, s)
        else
          (.ok src.length,
            { disk := s.disk.put name ((s.disk.store name).overwrite pos src)
              file := { s.file with pos := pos + src.length } })

def seek (s : FileDevice) (o : Origin) : Except IoError Nat × FileDevice :=
  match o.targetWithin? s.file.pos s.length maxPosition with
  | some pos => (.ok pos, { s with file := { s.file with pos := pos } })
  | none => (.error .invalidArgument, s)

instance : Device FileDevice where
  read := read
  write := write
  seek := seek
  close s := (.ok (), s)
  patience _ := 0
  length_read_le {s n bs} h := by
    dsimp only [read] at h
    repeat' split at h
    all_goals cases h
    simp only [Store.slice_eq, length_slice]
    omega
  patience_read_lt {s n e} h hk := by
    dsimp only [read] at h
    repeat' split at h
    all_goals cases h
    all_goals cases hk
  patience_write_lt {s src e} h hk := by
    dsimp only [write] at h
    repeat' split at h
    all_goals cases h
    all_goals cases hk

instance : WritesWithin FileDevice where
  write_le {s src k} h := by
    change (s.write src).1 = .ok k at h
    dsimp only [write] at h
    repeat' split at h
    all_goals cases h
    all_goals omega

/-- Opens a file of a disk as a mode and a disposition ask. A failure gives the disk back. -/
def openPath (disk : Disk) (path : String) (mode : OpenMode) (disposition : Disposition) :
    Except (ChannelError × Disk) FileDevice :=
  let r := disk.openFile path (.ofMode mode disposition)
  match r.1 with
  | .error e => .error (.io e, r.2)
  | .ok file => .ok ⟨r.2, file⟩

def openWide (disk : Disk) (path : List UInt16) (mode : OpenMode) (disposition : Disposition) :
    Except (ChannelError × Disk) FileDevice :=
  match WidePath.toPath path with
  | .error e => .error (e, disk)
  | .ok path => openPath disk path mode disposition

end FileDevice

end ByteChannel
