import Mathlib.Order.MinMax
import ByteChannel.Mapping

/-!
# Sizes inside a total

A range of words is held against a total by a sum that saturates. The check is exact for every total
but one: the largest word is what a sum saturates to, so in a total of that many bytes every range
passes, also one that ends behind it. A mapping is measured from the start of its file, where no sum
saturates: it takes a size just where the file is as long, and with any other nothing is opened.
-/

namespace ByteChannel

theorem addSat_le_iff {a b c : Nat} : addSat a b ≤ c ↔ a + b ≤ c ∨ maxWord ≤ c := min_le_iff

theorem checkRange_eq_ite (offset len total : UInt64) :
    checkRange offset.toNat len.toNat total.toNat =
      if offset.toNat + len.toNat ≤ total.toNat ∨ total.toNat = maxWord then .ok ()
      else .error (.outOfBounds offset.toNat len.toNat total.toNat) := by
  have ho : offset.toNat ≤ maxWord := Nat.le_pred_of_lt offset.toNat_lt
  have ht : total.toNat ≤ maxWord := Nat.le_pred_of_lt total.toNat_lt
  have hpass : (total.toNat < offset.toNat ∨ total.toNat < addSat offset.toNat len.toNat) ↔
      ¬ (offset.toNat + len.toNat ≤ total.toNat ∨ total.toNat = maxWord) := by
    rw [← Nat.not_le, ← Nat.not_le, addSat_le_iff]
    omega
  rw [checkRange]
  by_cases hin : offset.toNat + len.toNat ≤ total.toNat ∨ total.toNat = maxWord
  · rw [if_neg (fun h => hpass.1 h hin), if_pos hin]
  · rw [if_pos (hpass.2 hin), if_neg hin]

/-- From the start on the check is exact, whatever the total is. -/
theorem checkRange_zero (len : UInt64) (total : Nat) :
    checkRange 0 len.toNat total =
      if len.toNat ≤ total then .ok () else .error (.outOfBounds 0 len.toNat total) := by
  have hl : len.toNat ≤ maxWord := Nat.le_pred_of_lt len.toNat_lt
  have hsum : addSat 0 len.toNat = len.toNat := by
    rw [addSat_eq_add (by omega), Nat.zero_add]
  rw [checkRange, hsum]
  by_cases hle : len.toNat ≤ total
  · rw [if_neg (by omega), if_pos hle]
  · rw [if_pos (by omega), if_neg hle]

namespace Mapping

def openingOf (file : OpenFile) (mode : MapMode) (size : Nat) : Opening where
  name := file.name
  path := none
  length := size
  mode := mode
  readable := file.readable
  writable := file.writable

variable (t : MapTable) (file : OpenFile) (mode : MapMode)

theorem opening?_ofOpening (o : Opening) :
    (ofOpening t o).1.opening? (ofOpening t o).2 = some o := by
  simp [ofOpening, opening?, MapTable.opening?]

theorem ofFile_of_le {size : UInt64} (h : size.toNat ≤ t.disk.length file.name) :
    ofFile t file mode (some size.toNat) =
      (.ok (ofOpening t (openingOf file mode size.toNat)).1,
        (ofOpening t (openingOf file mode size.toNat)).2) := by
  have hcheck := checkRange_zero size (t.disk.length file.name)
  rw [if_pos h] at hcheck
  simp only [ofFile, Option.getD_some, hcheck, openingOf]

theorem ofFile_of_lt {size : UInt64} (h : t.disk.length file.name < size.toNat) :
    ofFile t file mode (some size.toNat) =
      (.error (.outOfBounds 0 size.toNat (t.disk.length file.name)), t) := by
  have hcheck := checkRange_zero size (t.disk.length file.name)
  rw [if_neg (Nat.not_le.2 h)] at hcheck
  simp only [ofFile, Option.getD_some, hcheck]

/-- A mapping of so many bytes of an open file, beside all that was opened before. -/
structure Opens (m : Mapping) (t t' : MapTable) (file : OpenFile) (mode : MapMode) (size : Nat) :
    Prop where
  opening : m.opening? t' = some (openingOf file mode size)
  sized : m.size t' = size
  before : t'.openings = t.openings ++ [openingOf file mode size]
  disk : t'.disk = t.disk

theorem opens_ofOpening (size : Nat) :
    Opens (ofOpening t (openingOf file mode size)).1 t (ofOpening t (openingOf file mode size)).2
      file mode size where
  opening := opening?_ofOpening t _
  sized := by
    rw [Mapping.size, opening?_ofOpening]
    rfl
  before := rfl
  disk := rfl

end Mapping

/-- The check of words is exact, but that a total of the largest word admits every range; a mapping
of an open file takes each size that does not exceed the length of the file, and no other. -/
theorem sizes_admitted_up_to_total (offset len total : UInt64) (t : MapTable) (file : OpenFile)
    (mode : MapMode) (size : UInt64) :
    (checkRange offset.toNat len.toNat total.toNat =
      if offset.toNat + len.toNat ≤ total.toNat ∨ total.toNat = maxWord then .ok ()
      else .error (.outOfBounds offset.toNat len.toNat total.toNat)) ∧
    let length := t.disk.length file.name
    if size.toNat ≤ length then
      ∃ m t', Mapping.ofFile t file mode (some size.toNat) = (.ok m, t') ∧
        m.Opens t t' file mode size.toNat
    else
      Mapping.ofFile t file mode (some size.toNat) =
        (.error (.outOfBounds 0 size.toNat length), t) := by
  refine ⟨checkRange_eq_ite offset len total, ?_⟩
  intro length
  by_cases hle : size.toNat ≤ length
  · rw [if_pos hle]
    exact ⟨_, _, Mapping.ofFile_of_le t file mode hle, Mapping.opens_ofOpening t file mode _⟩
  · rw [if_neg hle]
    exact Mapping.ofFile_of_lt t file mode (Nat.lt_of_not_le hle)

/-- The last byte of the range lies behind a total of the largest word. -/
theorem range_admitted_beyond_total :
    maxWord < 1 + maxWord ∧ checkRange 1 maxWord maxWord = .ok () := by
  decide

end ByteChannel
