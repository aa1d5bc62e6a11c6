import ByteChannel.Bytes

/-!
# Line ends

A line ends with one byte in a program and with two in a text file. `expand` and
`collapse` say what the two forms of the same text are, on whole texts. The scanners that
work piece by piece are in the modules beside this one.
-/

namespace ByteChannel.Text

def lf : UInt8 := 10

def cr : UInt8 := 13

def countNewlines (bs : Bytes) : Nat := bs.count lf

/-- Puts a carriage return before every line feed. -/
def expand : Bytes → Bytes
  | [] => []
  | b :: bs => if b = lf then cr :: lf :: expand bs else b :: expand bs

/-- Drops every carriage return that a line feed follows at once. -/
def collapse : Bytes → Bytes
  | [] => []
  | b :: bs => if b = cr ∧ bs.head? = some lf then collapse bs else b :: collapse bs

/-- The lines that end, without their line feeds, and what stands after the last line feed. -/
def lines : Bytes → List Bytes × Bytes
  | [] => ([], [])
  | b :: bs =>
    let r := lines bs
    if b = lf then ([] :: r.1, r.2)
    else
      match r.1 with
      | [] => ([], b :: r.2)
      | l :: ls => ((b :: l) :: ls, r.2)

theorem length_expand (bs : Bytes) : (expand bs).length = bs.length + countNewlines bs := by
  induction bs with
  | nil => rfl
  | cons b bs ih =>
    by_cases h : b = lf
    · simp [expand, countNewlines, h, ih]
      omega
    · simp [expand, countNewlines, h, ih]
      omega

theorem expand_append (as bs : Bytes) : expand (as ++ bs) = expand as ++ expand bs := by
  induction as with
  | nil => rfl
  | cons a as ih => by_cases h : a = lf <;> simp [expand, h, ih]

theorem countNewlines_append (as bs : Bytes) :
    countNewlines (as ++ bs) = countNewlines as + countNewlines bs := List.count_append

theorem countNewlines_expand (bs : Bytes) : countNewlines (expand bs) = countNewlines bs := by
  induction bs with
  | nil => rfl
  | cons b bs ih =>
    have hcr : cr ≠ lf := by decide
    rw [countNewlines, countNewlines] at ih
    by_cases h : b = lf
    · simp [expand, countNewlines, h, hcr, ih]
    · simp [expand, countNewlines, h, ih]

/-- A line feed of an expanded text stands behind its carriage return. -/
theorem head?_expand_ne (bs : Bytes) : (expand bs).head? ≠ some lf := by
  cases bs with
  | nil => simp [expand]
  | cons b bs =>
    by_cases h : b = lf
    · simp only [expand, if_pos h, List.head?_cons]
      decide
    · simp [expand, h]

/-- A cut through an expanded text parts the text between two bytes, or goes through a line end. -/
theorem expand_eq_append {bs front back : Bytes} (h : expand bs = front ++ back) :
    ∃ as cs, bs = as ++ cs ∧ (front = expand as ∧ back = expand cs ∨
      ∃ ds, cs = lf :: ds ∧ front = expand as ++ [cr] ∧ back = lf :: expand ds) := by
  induction bs generalizing front with
  | nil =>
    obtain ⟨hf, hb⟩ := List.append_eq_nil_iff.1 h.symm
    exact ⟨[], [], rfl, .inl ⟨hf, hb⟩⟩
  | cons b bs ih =>
    cases front with
    | nil => exact ⟨[], b :: bs, rfl, .inl ⟨rfl, h.symm⟩⟩
    | cons c front =>
      by_cases hb : b = lf
      · rw [expand, if_pos hb, List.cons_append, List.cons.injEq] at h
        obtain ⟨rfl, h⟩ := h
        subst hb
        cases front with
        | nil => exact ⟨[], lf :: bs, rfl, .inr ⟨bs, rfl, rfl, h.symm⟩⟩
        | cons c front =>
          rw [List.cons_append, List.cons.injEq] at h
          obtain ⟨rfl, h⟩ := h
          obtain ⟨as, cs, rfl, hcut⟩ := ih h
          have he : expand (lf :: as) = cr :: lf :: expand as := if_pos rfl
          refine ⟨lf :: as, cs, rfl, hcut.imp (fun hc => ⟨?_, hc.2⟩) ?_⟩
          · rw [he, hc.1]
          · rintro ⟨ds, hcs, hfront, hback⟩
            exact ⟨ds, hcs, by rw [he, hfront]; rfl, hback⟩
      · rw [expand, if_neg hb, List.cons_append, List.cons.injEq] at h
        obtain ⟨rfl, h⟩ := h
        obtain ⟨as, cs, rfl, hcut⟩ := ih h
        have he : expand (b :: as) = b :: expand as := if_neg hb
        refine ⟨b :: as, cs, rfl, hcut.imp (fun hc => ⟨?_, hc.2⟩) ?_⟩
        · rw [he, hc.1]
        · rintro ⟨ds, hcs, hfront, hback⟩
          exact ⟨ds, hcs, by rw [he, hfront]; rfl, hback⟩

theorem lines_append (bs : Bytes) : (lines bs).1.flatMap (· ++ [lf]) ++ (lines bs).2 = bs := by
  induction bs with
  | nil => rfl
  | cons b bs ih =>
    by_cases h : b = lf
    · simp [lines, h, ih]
    · simp only [lines, h, if_false]
      split
      · next he => simpa [he] using ih
      · next l ls he => simpa [he] using ih

end ByteChannel.Text
