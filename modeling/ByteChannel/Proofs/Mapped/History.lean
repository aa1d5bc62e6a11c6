import ByteChannel.Proofs.Mapped.Bytewise
import ByteChannel.Proofs.Mapped.Call
import ByteChannel.Proofs.Mapped.Entry

/-!
# Histories of a mapped channel

What an open channel was used for before, as a list of acts. The two cursors may have come apart by
any distance on the way, and any windows may have been refused: the window lies as it should after
every history, and the file never gets shorter.
-/

namespace ByteChannel.Mapped

/-- What can be done with an open channel. -/
inductive Act
  | op (op : Op)
  | peek
  | flush
  deriving DecidableEq, Repr

def act [Paging] (c : Mapped) : Act → Mapped
  | .op op => c.after op
  | .peek => c.peek.2
  | .flush => c.flush.2

def actAll [Paging] (c : Mapped) : List Act → Mapped
  | [] => c
  | a :: as => (c.act a).actAll as

variable {c c' d : Mapped} {i : Nat} {o : Opening} {m : OpenMode}

/-- A channel opened with a mode. One for output is over a mapping that takes output. -/
structure Live (m : OpenMode) (c : Mapped) (i : Nat) (o : Opening) : Prop extends Framed c i o where
  mode_eq : c.mode = m
  writes : m.isWritable = true → o.mode ≠ .readOnly

/-- How a channel is left by what was done with it. -/
structure Leaves (m : OpenMode) (c d : Mapped) (i : Nat) (o : Opening) : Prop
    extends Live m d i o where
  length_le : (c.table.file o).bytes.length ≤ (d.table.file o).bytes.length

theorem Leaves.trans {e : Mapped} (h : Leaves m c d i o) (k : Leaves m d e i o) :
    Leaves m c e i o :=
  ⟨k.toLive, Nat.le_trans h.length_le k.length_le⟩

namespace Framed

variable [Paging]

theorem keeps_reserveGet (h : c.Framed i o) (n : Nat) :
    Keeps c (c.reserveGet n).2 ∧ (c.reserveGet n).2.Framed i o := by
  obtain ⟨r, d, hreserve, hd, hkeeps, -⟩ := h.reserveGet n
  rw [hreserve]
  exact ⟨hkeeps, hd⟩

theorem keeps_reservePut (h : c.Framed i o) (n : Nat) :
    Keeps c (c.reservePut n).2 ∧ (c.reservePut n).2.Framed i o := by
  by_cases hw : c.mode.isWritable = true
  · obtain ⟨r, d, hreserve, hd, hkeeps, -⟩ := h.reservePut hw n
    rw [hreserve]
    exact ⟨hkeeps, hd⟩
  · have hreserve : c.reservePut n = (.error .notOpenForOutput, c) := by
      rw [Mapped.reservePut, if_neg (by simp [h.isOpen]), if_pos (by simpa using hw)]
    rw [hreserve]
    exact ⟨.refl c, h⟩

theorem keeps_read (h : c.Framed i o) (n : Nat) :
    Keeps c (c.read n).2 ∧ (c.read n).2.Framed i o := by
  unfold Mapped.read
  by_cases hr : c.canRead = false
  · rw [if_pos hr]
    exact ⟨.refl c, h⟩
  rw [if_neg hr]
  have htaken : (c.takeWindow n).2.Framed i o := h.bumpGet _
  have htake : Keeps c (c.takeWindow n).2 := .of_eq rfl rfl rfl rfl
  dsimp only
  by_cases hrest : n - min n c.get.available = 0
  · rw [if_pos hrest]
    exact ⟨htake.trans (keeps_setPut _ _), htaken.setPut _⟩
  · obtain ⟨r, d, hreserve, hd, hkeeps, -⟩ := htaken.reserveGet (n - min n c.get.available)
    have hkeeps := htake.trans hkeeps
    rw [if_neg hrest, hreserve]
    cases r with
    | error e => exact ⟨hkeeps.trans (.of_eq rfl rfl rfl rfl), (hd.latch _).setPut _⟩
    | ok room => exact ⟨hkeeps.trans (.of_eq rfl rfl rfl rfl), (hd.bumpGet _).setPut _⟩

theorem keeps_peek (h : c.Framed i o) : Keeps c c.peek.2 ∧ c.peek.2.Framed i o := by
  by_cases hr : c.mode.isReadable = true
  · obtain ⟨d, hpeek, hd⟩ := h.peek_eq hr
    rw [hpeek]
    exact ⟨hd.keeps, hd.toFramed⟩
  · rw [peek_refused (not_canRead hr)]
    exact ⟨.refl c, h⟩

theorem keeps_readByte (h : c.Framed i o) : Keeps c c.readByte.2 ∧ c.readByte.2.Framed i o := by
  by_cases hr : c.mode.isReadable = true
  · obtain ⟨d, hread, hd⟩ := h.readByte_eq hr
    rw [hread]
    exact ⟨hd.keeps.trans (.of_eq rfl rfl rfl rfl), hd.bumpGet 1⟩
  · rw [readByte_refused (not_canRead hr)]
    exact ⟨.refl c, h⟩

end Framed

namespace Live

theorem leaves (h : Live m c i o) (k : Keeps c d) (hd : d.Framed i o) : Leaves m c d i o :=
  ⟨⟨hd, k.mode.trans h.mode_eq, h.writes⟩, Nat.le_of_eq (by rw [k.table.file])⟩

theorem stays (h : Live m c i o) : Leaves m c c i o := ⟨h, Nat.le_refl _⟩

theorem latch (h : Live m c i o) (e : Option ChannelError) : Leaves m c (c.latch e) i o :=
  ⟨⟨h.toFramed.latch e, h.mode_eq, h.writes⟩, Nat.le_refl _⟩

variable [Paging]

theorem store (h : Live m c i o) (hw : m.isWritable = true) {bs : Bytes}
    (hbs : bs.length ≤ c.put.available) : Leaves m c (c.store bs) i o := by
  obtain ⟨v, d, rfl, hd, hstored⟩ := h.store_moves (h.writes hw) hbs
  refine ⟨⟨hd, ?_, h.writes⟩, ?_⟩
  · rw [hstored]
    exact h.mode_eq
  · rw [hstored]
    exact c.table.length_file_lay o _ _

theorem read (h : Live m c i o) (n : Nat) : Leaves m c (c.read n).2 i o :=
  h.leaves (h.keeps_read n).1 (h.keeps_read n).2

theorem peek (h : Live m c i o) : Leaves m c c.peek.2 i o :=
  h.leaves h.keeps_peek.1 h.keeps_peek.2

theorem readByte (h : Live m c i o) : Leaves m c c.readByte.2 i o :=
  h.leaves h.keeps_readByte.1 h.keeps_readByte.2

theorem reserveGet (h : Live m c i o) (n : Nat) : Leaves m c (c.reserveGet n).2 i o :=
  h.leaves (h.keeps_reserveGet n).1 (h.keeps_reserveGet n).2

theorem reservePut (h : Live m c i o) (n : Nat) : Leaves m c (c.reservePut n).2 i o :=
  h.leaves (h.keeps_reservePut n).1 (h.keeps_reservePut n).2

theorem write (h : Live m c i o) (src : Bytes) : Leaves m c (c.write src).2 i o := by
  by_cases hw : c.mode.isWritable = true
  · obtain ⟨k, d, hwrite, hd, hkeeps, -, hlen, hroom, -⟩ := h.write_eq hw src
    have hd := h.leaves hkeeps hd
    have hstored := hd.trans (hd.store (h.mode_eq ▸ hw) (hlen.symm ▸ hroom))
    rw [hwrite]
    exact hstored.trans (hstored.leaves (keeps_setGet _ _) (hstored.setGet _))
  · have hwrite : c.write src = (0, c.latch (some .notOpenForOutput)) := if_pos (not_canWrite hw)
    rw [hwrite]
    exact h.latch _

theorem writeByte (h : Live m c i o) (b : UInt8) : Leaves m c (c.writeByte b).2 i o := by
  by_cases hw : c.mode.isWritable = true
  · obtain ⟨d, hwrite, hd⟩ := h.writeByte_eq hw b
    have hroom := h.leaves hd.keeps hd.toFramed
    rw [hwrite]
    by_cases ha : 0 < d.put.available
    · have hone : [b].length ≤ d.put.available := ha
      rw [if_pos ha]
      exact hroom.trans (hroom.store (h.mode_eq ▸ hw) hone)
    · rw [if_neg ha]
      exact hroom
  · have hwrite : c.writeByte b = (false, c.latch (some .notOpenForOutput)) :=
      if_pos (not_canWrite hw)
    rw [hwrite]
    exact h.latch _

theorem act (h : Live m c i o) (hword : o.length ≤ maxWord) (a : Act) :
    Leaves m c (c.act a) i o := by
  cases a with
  | op op =>
    cases op with
    | read n => exact h.read n
    | readByte => exact h.readByte
    | reserveGet n => exact h.reserveGet n
    | reservePut n => exact h.reservePut n
    | write src => exact h.write src
    | writeByte b => exact h.writeByte b
    | seek origin side =>
      obtain ⟨d, hseek, hd, hkeeps, -⟩ := h.toFramed.seek hword origin side
      have hafter : c.act (.op (.seek origin side)) = d := congrArg Prod.snd hseek
      rw [hafter]
      exact h.leaves hkeeps hd.toFramed
  | peek => exact h.peek
  | flush => exact h.leaves h.flush.1 h.flush.2.1

theorem actAll (h : Live m c i o) (hword : o.length ≤ maxWord) (as : List Act) :
    Leaves m c (c.actAll as) i o := by
  induction as generalizing c with
  | nil => exact h.stays
  | cons a as ih =>
    have ha := h.act hword a
    exact ha.trans (ih ha.toLive)

end Live

/-- Every channel starts live. -/
theorem enter_live {entry : Entry} (h : c.enter entry = (.ok (), c'))
    (ho : c'.mapping.opening? c'.table = some o) :
    ∃ i, Live entry.mode c' i o.plain := by
  obtain ⟨i, hat, -, hmode⟩ := enter_at h ho
  exact ⟨i, hat.toFramed, hmode, enter_writes (o := o) h ho⟩

end ByteChannel.Mapped
