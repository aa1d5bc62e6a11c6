import ByteChannel.Proofs.Mapping
import ByteChannel.Proofs.Mapping.Copies

/-!
# The byte last stored at a place

A deposit is what one call lays over a file. After a list of deposits a place holds the byte that
was last deposited there, or the byte that it held before them all.
-/

namespace ByteChannel

structure Deposit where
  file : String
  pos : Nat
  bytes : Bytes
  deriving DecidableEq, Repr

namespace Deposit

/-- What is laid over the file of an opening. -/
def into (o : Opening) (pos : Nat) (bs : Bytes) : Option Deposit :=
  o.name.map fun file => { file := file, pos := pos, bytes := bs }

def onto (x : Option Deposit) (file : String) (old : Bytes) : Bytes :=
  match x with
  | some d => if d.file = file then overwrite old d.pos d.bytes else old
  | none => old

/-- The byte that is deposited at a place. -/
def at? (d : Deposit) (file : String) (pos : Nat) : Option UInt8 :=
  if d.file = file ∧ d.pos ≤ pos then d.bytes[pos - d.pos]? else none

/-- The byte that is deposited at a place last. -/
def lastAt (file : String) (pos : Nat) : List Deposit → Option UInt8
  | [] => none
  | d :: ds => (lastAt file pos ds).or (d.at? file pos)

/-- A deposit lies inside its file. -/
def Fits (x : Option Deposit) (d : Disk) : Prop :=
  ∀ y, x = some y → y.pos + y.bytes.length ≤ (d.bytes y.file).length

variable {x : Option Deposit} {d : Disk} {t : MapTable} {o : Opening} {pos : Nat} {bs : Bytes}

theorem fits_none (d : Disk) : Fits none d := nofun

theorem fits_into (h : ∀ file, o.name = some file → pos + bs.length ≤ (d.bytes file).length) :
    Fits (into o pos bs) d := by
  intro y hy
  obtain ⟨file, hfile, rfl⟩ := Option.map_eq_some_iff.1 hy
  exact h file hfile

theorem length_onto (h : Fits x d) (file : String) :
    (onto x file (d.bytes file)).length = (d.bytes file).length := by
  unfold onto
  split
  · next y =>
    have hy := h y rfl
    split
    · next he =>
      rw [he] at hy
      rw [length_overwrite, Nat.max_eq_left hy]
    · rfl
  · rfl

theorem getElem?_onto (h : Fits x d) (file : String) (pos : Nat) :
    (onto x file (d.bytes file))[pos]? = (x.bind (·.at? file pos)).or (d.bytes file)[pos]? := by
  cases x with
  | none => rfl
  | some y =>
    have hy := h y rfl
    rw [Option.bind_some, onto, at?]
    by_cases he : y.file = file
    · subst he
      rw [if_pos rfl, getElem?_overwrite _ _ hy]
      by_cases hp : y.pos ≤ pos
      · rw [if_pos (⟨rfl, hp⟩ : y.file = y.file ∧ y.pos ≤ pos)]
        by_cases hlt : pos < y.pos + y.bytes.length
        · have hin : pos - y.pos < y.bytes.length := by omega
          rw [if_pos ⟨hp, hlt⟩, List.getElem?_eq_getElem hin, Option.some_or]
        · have hout : y.bytes.length ≤ pos - y.pos := by omega
          rw [if_neg (fun hb => hlt hb.2), List.getElem?_eq_none hout, Option.none_or]
      · rw [if_neg fun hb : y.pos ≤ pos ∧ _ => hp hb.1, if_neg fun hb => hp hb.2, Option.none_or]
    · rw [if_neg he, if_neg fun hb => he hb.1, Option.none_or]

theorem lastAt_toList_append (x : Option Deposit) (ds : List Deposit) (file : String) (pos : Nat) :
    lastAt file pos (x.toList ++ ds) = (lastAt file pos ds).or (x.bind (·.at? file pos)) := by
  cases x with
  | none => exact Option.or_none.symm
  | some y => rfl

/-! ## On a table -/

theorem onto_into_nil (hpos : ∀ file, o.name = some file → pos ≤ (d.bytes file).length)
    (file : String) : onto (into o pos []) file (d.bytes file) = d.bytes file := by
  cases ho : o.name with
  | none => simp only [into, ho, Option.map_none, onto]
  | some name =>
    simp only [into, ho, Option.map_some, onto]
    split
    · next he => exact overwrite_nil_new _ (he ▸ hpos name ho)
    · rfl

theorem bytes_setFile (t : MapTable) (o : Opening) (pos : Nat) (bs : Bytes) (file : String) :
    (t.setFile o ((t.file o).overwrite pos bs)).disk.bytes file =
      onto (into o pos bs) file (t.disk.bytes file) := by
  cases ho : o.name with
  | none => simp only [MapTable.setFile, into, ho, Option.map_none, onto]
  | some name =>
    simp only [MapTable.setFile, MapTable.file, into, ho, Option.map_some, onto, Option.getD_some]
    by_cases he : name = file
    · rw [if_pos he, ← he, Disk.bytes_put_self, Store.bytes_overwrite]
      rfl
    · rw [if_neg he, Disk.bytes_put_of_ne _ _ (Ne.symm he)]

theorem bytes_lay (hpos : ∀ file, o.name = some file → pos ≤ (t.disk.bytes file).length)
    (file : String) :
    (t.lay o pos bs).disk.bytes file = onto (into o pos bs) file (t.disk.bytes file) := by
  by_cases h : bs = []
  · rw [h, MapTable.lay_nil, onto_into_nil hpos]
  · rw [MapTable.lay_of_ne_nil t o pos h, bytes_setFile]

end Deposit

end ByteChannel
