import ByteChannel.Error
import ByteChannel.Keyed
import ByteChannel.Store

/-!
# A directory of files

The files that handles and mappings work on: one flat directory that gives each name its
bytes. A file exists once, so whoever opens it sees what others write. Paths start in the
directory. No name in it leads to a further one, so a path that goes on behind a name fails.
-/

namespace ByteChannel

structure Disk where
  files : List (String × Store)
  deriving DecidableEq, Repr

namespace Disk

def empty : Disk := ⟨[]⟩

def store? (d : Disk) (name : String) : Option Store := d.files.lookup name

/-- What a file holds; a missing one holds nothing. -/
def store (d : Disk) (name : String) : Store := (d.store? name).getD .empty

def bytes (d : Disk) (name : String) : Bytes := (d.store name).bytes

/-- Gives a file what it holds, and creates it where it is missing. -/
def put (d : Disk) (name : String) (s : Store) : Disk := ⟨Keyed.put name s d.files⟩

theorem store?_put_self (d : Disk) (name : String) (s : Store) :
    (d.put name s).store? name = some s :=
  Keyed.lookup_put_self name s d.files

theorem store?_put_of_ne (d : Disk) {name other : String} (s : Store) (h : other ≠ name) :
    (d.put name s).store? other = d.store? other :=
  Keyed.lookup_put_of_ne s h d.files

theorem bytes_put_self (d : Disk) (name : String) (s : Store) :
    (d.put name s).bytes name = s.bytes := by
  simp [bytes, store, store?_put_self]

theorem bytes_put_of_ne (d : Disk) {name other : String} (s : Store) (h : other ≠ name) :
    (d.put name s).bytes other = d.bytes other := by
  simp [bytes, store, store?_put_of_ne d s h]

/-! ## Paths -/

def maxNameLength : Nat := 255

def maxPathLength : Nat := 4095

/-- What a path leads to: a file, a directory, a name that is free, or a name with a slash behind
it, which only a further directory could have. The last one carries the failure to go there. -/
inductive Place
  | file (name : String)
  | directory
  | free (name : String)
  | branch (failure : IoError)
  deriving DecidableEq, Repr

/-- Whether a step of a path goes along the directories that are there. -/
def isDots (step : String) : Bool := step == "." || step == ".."

/-- A path in two parts: the way to the directory where it starts, empty for the one the files are
in, and the names from there on. -/
def split (path : String) : String × List String :=
  let steps := (path.splitOn "/").filter (· != "")
  let way := (steps.takeWhile isDots).filter (· == "..")
  (if path.startsWith "/" then "/" else String.join (way.map (· ++ "/")), steps.dropWhile isDots)

def locate (d : Disk) (path : String) : Except IoError Place :=
  if path = "" then .error .notFound
  else if maxPathLength < path.utf8ByteSize then .error .nameTooLong
  else
    match (split path).2 with
    | [] => .ok .directory
    | last :: more =>
      let name := (split path).1 ++ last
      let tooLong := maxNameLength < last.utf8ByteSize
      let isFile := (d.store? name).isSome
      let failure : IoError :=
        if tooLong then .nameTooLong else if isFile then .notADirectory else .notFound
      if more ≠ [] then .error failure
      else if path.endsWith "/" then .ok (.branch failure)
      else if tooLong then .error .nameTooLong
      else .ok (if isFile then .file name else .free name)

end Disk

end ByteChannel
