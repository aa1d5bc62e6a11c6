import ByteChannel.Mapping.View

/-!
# What windows leave of a table

Windows are made, dropped and written back on a table. That counts holders and requests, and changes
neither what was opened nor what the files hold. Only stored bytes change a file.
-/

namespace ByteChannel

/-- What was opened, whoever holds it. -/
def Opening.plain (o : Opening) : Opening := { o with holders := 0 }

/-- What of stored bytes reaches the file. -/
def Opening.passes (o : Opening) (bs : Bytes) : Bytes := if o.mode = .readWrite then bs else []

@[simp] theorem Opening.passes_nil (o : Opening) : o.passes [] = [] := ite_self []

theorem Opening.length_passes_le (o : Opening) (bs : Bytes) :
    (o.passes bs).length ≤ bs.length := by
  unfold passes
  split
  · exact Nat.le_refl _
  · exact Nat.zero_le _

namespace MapTable

def opened? (t : MapTable) (i : Nat) : Option Opening := (t.opening? i).map .plain

/-- The files, what was opened and the refusals to come are the same. -/
structure Like (t t' : MapTable) : Prop where
  disk : t'.disk = t.disk
  opened : ∀ i, t'.opened? i = t.opened? i
  refusesWindow : t'.refusesWindow = t.refusesWindow
  refusesSync : t'.refusesSync = t.refusesSync

/-- The window on an opening that is asked for next is granted. -/
structure GrantsNext (t : MapTable) (o : Opening) : Prop where
  allows : denies o = none
  accepts : t.refusesWindow t.windowsAsked = false

/-- Every window on an opening is granted. -/
structure Grants (t : MapTable) (o : Opening) : Prop where
  allows : denies o = none
  never_refuses : ∀ n, t.refusesWindow n = false

/-- The failure that a write-back can report. -/
def LosesSync (t : MapTable) (e : ChannelError) : Prop :=
  e = .flushFailed IoError.inputOutput.message ∧ ∃ n, t.refusesSync n = true

/-- The table after bytes were stored in a file; none leave it as it is. -/
def lay (t : MapTable) (o : Opening) (pos : Nat) (bs : Bytes) : MapTable :=
  if bs = [] then t else t.setFile o ((t.file o).overwrite pos bs)

variable {t t' t'' : MapTable} {o : Opening}

namespace Like

theorem refl (t : MapTable) : Like t t := ⟨rfl, fun _ => rfl, rfl, rfl⟩

theorem trans (h : Like t t') (k : Like t' t'') : Like t t'' :=
  ⟨k.disk.trans h.disk, fun i => (k.opened i).trans (h.opened i),
    k.refusesWindow.trans h.refusesWindow, k.refusesSync.trans h.refusesSync⟩

theorem file (h : Like t t') (o : Opening) : t'.file o = t.file o := by
  simp only [MapTable.file, h.disk]

theorem isWritable (h : Like t t') (m : Mapping) : m.isWritable t' = m.isWritable t := by
  have hmode (t : MapTable) (i : Nat) :
      (t.opening? i).map (·.mode) = (t.opened? i).map (·.mode) := by
    rw [opened?, Option.map_map]
    rfl
  cases hm : m.holds with
  | none => simp only [Mapping.isWritable, Mapping.mode?, Mapping.opening?, hm, Option.bind_none]
  | some i =>
    simp only [Mapping.isWritable, Mapping.mode?, Mapping.opening?, hm, Option.bind_some, hmode,
      h.opened]

theorem grants (h : Like t t') (hg : t.Grants o) : t'.Grants o := by
  refine ⟨hg.allows, ?_⟩
  rw [h.refusesWindow]
  exact hg.never_refuses

theorem grantsNext (h : Like t t') (ha : t'.windowsAsked = t.windowsAsked)
    (hg : t.GrantsNext o) : t'.GrantsNext o := by
  refine ⟨hg.allows, ?_⟩
  rw [h.refusesWindow, ha]
  exact hg.accepts

/-- The next window is answered alike. -/
theorem askWindow (h : Like t t') (ha : t'.windowsAsked = t.windowsAsked) (o : Opening) :
    (t'.askWindow o).1 = (t.askWindow o).1 := by
  rw [MapTable.askWindow, MapTable.askWindow, h.refusesWindow, ha]

theorem losesSync (h : Like t t') {e : ChannelError} (he : t.LosesSync e) : t'.LosesSync e := by
  obtain ⟨rfl, n, hn⟩ := he
  exact ⟨rfl, n, h.refusesSync ▸ hn⟩

end Like

theorem like_adjust (t : MapTable) (i : Nat) (f : Nat → Nat) : Like t (t.adjust i f) := by
  refine ⟨rfl, ?_, rfl, rfl⟩
  intro j
  simp only [opened?, opening?, adjust, List.getElem?_modify]
  cases t.openings[j]? with
  | none => rfl
  | some o => by_cases hij : i = j <;> simp [hij, Opening.plain]

theorem like_retain (t : MapTable) (i : Nat) : Like t (t.retain i) := like_adjust t i _

theorem like_release (t : MapTable) (held : Option Nat) :
    Like t ((held.map t.release).getD t) := by
  cases held with
  | none => exact .refl t
  | some i => exact like_adjust t i (· - 1)

theorem windowsAsked_release (t : MapTable) (held : Option Nat) :
    ((held.map t.release).getD t).windowsAsked = t.windowsAsked := by
  cases held <;> rfl

theorem like_askWindow (t : MapTable) (o : Opening) : Like t (t.askWindow o).2 :=
  ⟨rfl, fun _ => rfl, rfl, rfl⟩

theorem like_askSync (t : MapTable) : Like t t.askSync.2 := ⟨rfl, fun _ => rfl, rfl, rfl⟩

theorem Grants.next (h : t.Grants o) : t.GrantsNext o := ⟨h.allows, h.never_refuses _⟩

theorem GrantsNext.askWindow (h : t.GrantsNext o) : (t.askWindow o).1 = none := by
  simp [MapTable.askWindow, h.allows, h.accepts]

theorem grantsNext_iff (t : MapTable) (o : Opening) :
    t.GrantsNext o ↔ (t.askWindow o).1 = none := by
  refine ⟨GrantsNext.askWindow, fun h => ?_⟩
  rw [askWindow, Option.or_eq_none_iff] at h
  refine ⟨h.1, Bool.eq_false_iff.2 fun hr => ?_⟩
  rw [if_pos hr] at h
  exact Option.some_ne_none _ h.2

/-- What can be shown in windows is a file. -/
theorem GrantsNext.name (h : t.GrantsNext o) : ∃ name, o.name = some name := by
  have ha := h.allows
  unfold denies at ha
  split at ha
  · cases ha
  · split at ha
    · cases ha
    · next hn => exact Option.ne_none_iff_exists'.1 (by simpa using hn)

theorem like_clone (m : Mapping) (t : MapTable) : Like t (m.clone t).2 := by
  unfold Mapping.clone
  cases m.holds with
  | none => exact .refl t
  | some i => exact like_retain t i

theorem opening?_ofOpening (t : MapTable) (o : Opening) (i : Nat) :
    (Mapping.ofOpening t o).2.opening? i =
      if i = t.openings.length then some o else t.opening? i := by
  simp only [opening?, Mapping.ofOpening, List.getElem?_append]
  by_cases he : i = t.openings.length
  · rw [if_pos he, if_neg (by omega), he, Nat.sub_self]
    rfl
  · rw [if_neg he]
    by_cases hi : i < t.openings.length
    · rw [if_pos hi]
    · rw [if_neg hi, List.getElem?_eq_none (by simp only [List.length_singleton]; omega),
        List.getElem?_eq_none (Nat.le_of_not_lt hi)]

/-- A path is mapped as it was asked for. -/
theorem isWritable_openPath {path : String} {mode : MapMode} {m : Mapping}
    (h : Mapping.openPath t path mode = (.ok m, t')) : m.isWritable t' = mode.isWritable := by
  unfold Mapping.openPath at h
  dsimp only at h
  split at h
  · cases h
  · cases h
    simp [Mapping.isWritable, Mapping.mode?, Mapping.opening?, opening?, Mapping.ofOpening]

/-! ## Stored bytes -/

@[simp]
theorem lay_nil (t : MapTable) (o : Opening) (pos : Nat) : t.lay o pos [] = t := if_pos rfl

theorem lay_of_ne_nil (t : MapTable) (o : Opening) (pos : Nat) {bs : Bytes} (h : bs ≠ []) :
    t.lay o pos bs = t.setFile o ((t.file o).overwrite pos bs) := if_neg h

/-- Storing changes nothing but the disk. -/
theorem lay_eq (t : MapTable) (o : Opening) (pos : Nat) (bs : Bytes) :
    t.lay o pos bs = { t with disk := (t.lay o pos bs).disk } := by
  by_cases h : bs = []
  · simp [h]
  · rw [lay_of_ne_nil t o pos h, setFile]
    cases o.name <;> rfl

theorem disk_lay_congr (h : t'.disk = t.disk) (o : Opening) (pos : Nat) (bs : Bytes) :
    (t'.lay o pos bs).disk = (t.lay o pos bs).disk := by
  by_cases hb : bs = []
  · simp [hb, h]
  · rw [lay_of_ne_nil _ _ _ hb, lay_of_ne_nil _ _ _ hb, setFile, setFile, file, file, h]
    cases o.name with
    | none => exact h
    | some name => simp only

theorem Like.lay (h : Like t t') (o : Opening) (pos : Nat) (bs : Bytes) :
    Like (t.lay o pos bs) (t'.lay o pos bs) := by
  have hd := disk_lay_congr h.disk o pos bs
  rw [lay_eq t o pos bs, lay_eq t' o pos bs]
  exact ⟨hd, h.opened, h.refusesWindow, h.refusesSync⟩

@[simp]
theorem refusesSync_lay (t : MapTable) (o : Opening) (pos : Nat) (bs : Bytes) :
    (t.lay o pos bs).refusesSync = t.refusesSync := by
  rw [lay_eq]

@[simp]
theorem windowsAsked_lay (t : MapTable) (o : Opening) (pos : Nat) (bs : Bytes) :
    (t.lay o pos bs).windowsAsked = t.windowsAsked := by
  rw [lay_eq]

@[simp]
theorem opened?_lay (t : MapTable) (o : Opening) (pos : Nat) (bs : Bytes) (i : Nat) :
    (t.lay o pos bs).opened? i = t.opened? i := by
  rw [lay_eq]
  rfl

theorem Grants.lay (h : t.Grants o) (other : Opening) (pos : Nat) (bs : Bytes) :
    (t.lay other pos bs).Grants o := by
  rw [lay_eq]
  exact ⟨h.allows, h.never_refuses⟩

theorem bytes_file_lay {name : String} (ho : o.name = some name) {pos : Nat} (bs : Bytes)
    (hpos : pos ≤ (t.file o).bytes.length) :
    ((t.lay o pos bs).file o).bytes = overwrite (t.file o).bytes pos bs := by
  by_cases h : bs = []
  · rw [h, lay_nil, overwrite_nil_new _ hpos]
  · rw [lay_of_ne_nil t o pos h, setFile, ho]
    simp only [file, ho, Option.map_some, Option.getD_some]
    exact (Disk.bytes_put_self _ _ _).trans (Store.bytes_overwrite _ _ _)

/-- A file never gets shorter by what is stored in it. -/
theorem length_file_lay (t : MapTable) (o : Opening) (pos : Nat) (bs : Bytes) :
    (t.file o).bytes.length ≤ ((t.lay o pos bs).file o).bytes.length := by
  by_cases h : bs = []
  · simp [h]
  · rw [lay_of_ne_nil t o pos h, setFile]
    cases ho : o.name with
    | none => exact Nat.le_refl _
    | some name =>
      have hput (s : Store) : ((t.disk.put name s).store name).bytes = s.bytes :=
        Disk.bytes_put_self _ _ _
      simp only [file, ho, Option.map_some, Option.getD_some]
      rw [hput, Store.bytes_overwrite, length_overwrite]
      exact Nat.le_max_left _ _

theorem store?_lay_of_ne {name : String} (h : o.name ≠ some name) (t : MapTable) (pos : Nat)
    (bs : Bytes) : (t.lay o pos bs).disk.store? name = t.disk.store? name := by
  by_cases hb : bs = []
  · rw [hb, lay_nil]
  · rw [lay_of_ne_nil t o pos hb, setFile]
    cases ho : o.name with
    | none => rfl
    | some other =>
      have hne : name ≠ other := fun he => h (he ▸ ho)
      exact Disk.store?_put_of_ne _ _ hne

/-! ## One file -/

/-- Nothing changes but the file of an opening. -/
structure Apart (o : Opening) (t t' : MapTable) : Prop where
  store? : ∀ name, o.name ≠ some name → t'.disk.store? name = t.disk.store? name
  refusesSync : t'.refusesSync = t.refusesSync

namespace Apart

theorem refl (o : Opening) (t : MapTable) : Apart o t t := ⟨fun _ _ => rfl, rfl⟩

theorem trans (h : Apart o t t') (k : Apart o t' t'') : Apart o t t'' :=
  ⟨fun name hname => (k.store? name hname).trans (h.store? name hname),
    k.refusesSync.trans h.refusesSync⟩

theorem losesSync_eq (h : Apart o t t') : t'.LosesSync = t.LosesSync := by
  funext e
  rw [LosesSync, LosesSync, h.refusesSync]

end Apart

theorem Like.apart (h : Like t t') (o : Opening) : Apart o t t' :=
  ⟨fun name _ => by rw [h.disk], h.refusesSync⟩

theorem apart_lay (t : MapTable) (o : Opening) (pos : Nat) (bs : Bytes) :
    Apart o t (t.lay o pos bs) :=
  ⟨fun _ hname => store?_lay_of_ne hname t pos bs, t.refusesSync_lay o pos bs⟩

end MapTable

namespace View

variable {v : View} {t : MapTable}

theorem length_unbound (h : v.window = none) : v.length = 0 := by
  rw [length, h]
  rfl

theorem length_bound {w : Window} (h : v.window = some w) : v.length = w.length := by
  rw [length, h]
  rfl

theorem like_sync (v : View) (t : MapTable) : t.Like (v.sync t).2 := by
  unfold sync
  dsimp only
  split
  · split <;> exact t.like_askSync
  · exact .refl t

theorem windowsAsked_sync (v : View) (t : MapTable) :
    (v.sync t).2.windowsAsked = t.windowsAsked := by
  unfold sync
  dsimp only
  split
  · split <;> rfl
  · rfl

theorem losesSync_of_sync {e : ChannelError} (h : failure? (v.sync t).1 = some e) :
    t.LosesSync e := by
  unfold sync at h
  dsimp only at h
  split at h
  · split at h
    · next cause hc =>
      simp only [MapTable.askSync] at hc
      split at hc
      · next hn =>
        cases hc
        cases h
        exact ⟨rfl, _, hn⟩
      · cases hc
    · cases h
  · cases h

/-! ## Another window -/

section Remap

variable {m : Mapping} {o : Opening} {offset : Nat}

/-- Nothing happens to a view for which a closed mapping is asked. -/
theorem remap_closed (v : View) (hm : m.opening? t = none) (len : Nat) :
    v.remap t m offset len = (.error .unmapped, v, t) := by
  unfold remap
  rw [hm]
  cases m.holds <;> rfl

theorem remap_beyond (v : View) (hm : m.opening? t = some o) (hoff : o.length ≤ offset)
    (len : Nat) :
    v.remap t m offset len = (.error (.outOfBounds offset len o.length), v.unmap, t) := by
  obtain ⟨i, hi, -⟩ := Option.bind_eq_some_iff.1 hm
  unfold remap
  rw [hi, hm]
  exact if_pos hoff

theorem remap_refused (v : View) (hm : m.opening? t = some o) (hoff : offset < o.length)
    {e : IoError} (he : (t.askWindow o).1 = some e) (len : Nat) :
    v.remap t m offset len = (.error (.io e), v.unmap, (t.askWindow o).2) := by
  obtain ⟨i, hi, -⟩ := Option.bind_eq_some_iff.1 hm
  unfold remap
  rw [hi, hm]
  simp only [if_neg (Nat.not_le_of_lt hoff), he]

theorem remap_granted (v : View) (hm : m.opening? t = some o) {i : Nat} (hi : m.holds = some i)
    (hoff : offset < o.length) (hgranted : (t.askWindow o).1 = none) (len : Nat) :
    v.remap t m offset len =
      (.ok (), ⟨some i, some { length := windowLength offset len o.length }, offset⟩,
        (v.attached.map ((t.askWindow o).2.retain i).release).getD
          ((t.askWindow o).2.retain i)) := by
  unfold remap
  rw [hi, hm]
  simp only [if_neg (Nat.not_le_of_lt hoff), hgranted]
  rfl

/-- Another window on an opening: it is there, or was refused and the view shows nothing. -/
theorem remap_spec {i : Nat} (hm : m.holds = some i) (ho : t.opened? i = some o)
    (hoff : offset < o.length) (len : Nat) :
    ∃ r v' t', v.remap t m offset len = (r, v', t') ∧ t.Like t' ∧
      t'.windowsAsked = t.windowsAsked + 1 ∧
      ((r = .ok () ∧
          v' = ⟨some i, some { length := windowLength offset len o.length }, offset⟩) ∨
        (∃ e, r = .error e) ∧ v' = v.unmap ∧ ¬t.GrantsNext o) := by
  obtain ⟨held, hheld, rfl⟩ := Option.map_eq_some_iff.1 ho
  have hopen : m.opening? t = some held := by simp [Mapping.opening?, hm, hheld]
  have hlt : offset < held.length := hoff
  cases hask : (t.askWindow held).1 with
  | some e =>
    refine ⟨_, _, _, v.remap_refused hopen hlt hask len, t.like_askWindow held, rfl,
      .inr ⟨⟨_, rfl⟩, rfl, ?_⟩⟩
    intro hg
    have hnone : (t.askWindow held).1 = none := hg.askWindow
    rw [hnone] at hask
    cases hask
  | none =>
    refine ⟨_, _, _, v.remap_granted hopen hm hlt hask len, ?_,
      MapTable.windowsAsked_release _ _, .inl ⟨rfl, rfl⟩⟩
    exact ((t.like_askWindow held).trans (MapTable.like_retain _ i)).trans
      (MapTable.like_release _ _)

end Remap

end View

end ByteChannel
