import Mathlib
import ByteChannel.Proofs.Workspace.OneFile

/-!
# Views show what was promised

A window is promised to a view by the call that asks for it: so much of its mapping as was asked
for, or the rest. A request that fails takes the window that was there, but leaves the view attached
where it was. What is promised is noted from the calls and their answers, and it is what the view
shows after any calls on any mappings.
-/

namespace ByteChannel

namespace View

variable {v : View} {t t' : MapTable} {o : Opening} {offset len : Nat}

/-- What a request for a window of an open mapping fails with. -/
def failsWith (t : MapTable) (o : Opening) (offset len : Nat) : Option ChannelError :=
  if o.length ≤ offset then some (.outOfBounds offset len o.length)
  else (t.askWindow o).1.map .io

/-- What a request for a window comes to: nothing on a closed mapping, or the window is lost, or
another one is there. -/
inductive Remaps (v : View) (t : MapTable) (m : Mapping) (offset len : Nat) :
    Except ChannelError Unit × View × MapTable → Prop
  | closed (hm : m.opening? t = none) : Remaps v t m offset len (.error .unmapped, v, t)
  | fails {o : Opening} {e : ChannelError} {t' : MapTable} (hm : m.opening? t = some o)
      (he : failsWith t o offset len = some e) (hlike : t.Like t') :
      Remaps v t m offset len (.error e, v.unmap, t')
  | succeeds {i : Nat} {o : Opening} {t' : MapTable} (hi : m.holds = some i)
      (hm : m.opening? t = some o) (hnone : failsWith t o offset len = none) (hlike : t.Like t') :
      Remaps v t m offset len
        (.ok (), ⟨some i, some { length := windowLength offset len o.length }, offset⟩, t')

theorem failsWith_eq_none_iff :
    failsWith t o offset len = none ↔ offset < o.length ∧ (t.askWindow o).1 = none := by
  unfold failsWith
  split
  · next hle => exact iff_of_false nofun fun h => Nat.not_lt_of_le hle h.1
  · next hlt =>
    rw [Option.map_eq_none_iff]
    exact ⟨fun h => ⟨Nat.lt_of_not_le hlt, h⟩, And.right⟩

theorem failsWith_ne_unmapped {e : ChannelError} (h : failsWith t o offset len = some e) :
    e ≠ .unmapped := by
  unfold failsWith at h
  split at h
  · cases h
    nofun
  · obtain ⟨cause, -, rfl⟩ := Option.map_eq_some_iff.1 h
    nofun

theorem remaps (v : View) (t : MapTable) (m : Mapping) (offset len : Nat) :
    Remaps v t m offset len (v.remap t m offset len) := by
  have hlike := v.like_remap t m offset len
  cases hm : m.opening? t with
  | none =>
    rw [v.remap_closed hm]
    exact .closed hm
  | some o =>
    obtain ⟨i, hi, -⟩ := Option.bind_eq_some_iff.1 hm
    rcases Nat.lt_or_ge offset o.length with hlt | hle
    · cases hask : (t.askWindow o).1 with
      | some e =>
        rw [v.remap_refused hm hlt hask] at hlike ⊢
        refine .fails (e := .io e) hm ?_ hlike
        rw [failsWith, if_neg (Nat.not_le_of_lt hlt), hask, Option.map_some]
      | none =>
        rw [v.remap_granted hm hi hlt hask] at hlike ⊢
        exact .succeeds hi hm (failsWith_eq_none_iff.2 ⟨hlt, hask⟩) hlike
    · rw [v.remap_beyond hm hle]
      exact .fails hm (if_pos hle) (.refl t)

end View

namespace Workspace

/-- A window that is asked for: of which view, on which mapping, from where and how long. -/
structure Request where
  name : String
  held : Option Nat
  offset : Nat
  len : Nat

/-- The window that a call asks for. The ledger tells the mapping that its handle stands for, or the
one that the view was bound to. -/
def request? (l : Ledger) : Call → Option Request
  | .bindView name source offset len | .remapView name source offset len =>
    some ⟨name, l.held (.mapping source), offset, len⟩
  | .moveView name offset len => some ⟨name, l.held (.view name), offset, len⟩
  | _ => none

structure Range where
  held : Option Nat
  offset : Nat
  length : Nat
  deriving DecidableEq, Repr

/-- The rest of the mapping where nothing or too much is asked for. -/
def promisedLength (offset len total : Nat) : Nat :=
  if len = 0 ∨ total < offset + len then total - offset else len

def Request.range? (q : Request) (t : MapTable) : Option Range :=
  (q.held.bind t.opening?).map fun o => ⟨q.held, q.offset, promisedLength q.offset q.len o.length⟩

/-- A new view takes the place of the old one only once it is bound. -/
def Call.isBind : Call → Bool
  | .bindView _ _ _ _ => true
  | _ => false

def Call.drops? : Call → Option String
  | .unmapView name | .releaseView name => some name
  | _ => none

/-- What is promised of a view after a call, by the answer. -/
def promise [Paging] (s : Workspace) (l : Ledger) (name : String) (p : Option Range) (call : Call) :
    Option Range :=
  match request? l call with
  | some q =>
    if q.name ≠ name then p
    else if (s.perform call).1.succeeded then q.range? s.table
    else if call.isBind ∨ q.held = none then p
    else none
  | none => if call.drops? = some name then none else p

def promised [Paging] (s : Workspace) (l : Ledger) (name : String) (p : Option Range) :
    List Call → Option Range
  | [] => p
  | call :: calls =>
    (s.perform call).2.promised (l.note call (s.perform call).1 (s.grants call)) name
      (s.promise l name p call) calls

def shownRange? (s : Workspace) (name : String) : Option Range :=
  (s.view name).window.map fun w => ⟨(s.view name).attached, (s.view name).offset, w.length⟩

structure Fulfilled [Paging] (s : Workspace) (q : Request) (i : Nat) (o : Opening) : Prop where
  attached : (s.view q.name).attached = some i
  bound : (s.view q.name).isBound = true
  offset_eq : (s.view q.name).offset = q.offset
  length_eq : (s.view q.name).length = promisedLength q.offset q.len o.length
  nonempty : 0 < (s.view q.name).length
  inside : q.offset + (s.view q.name).length ≤ (s.table.file o).bytes.length
  bytes_eq : (s.view q.name).bytes s.table =
    slice (s.table.file o).bytes q.offset (q.offset + (s.view q.name).length)

variable {s s' : Workspace} {l : Ledger} {name : String} {call : Call} {q : Request}

theorem windowLength_eq {offset total : Nat} (len : Nat) (h : offset < total) :
    View.windowLength offset len total = promisedLength offset len total := by
  have hiff : total - offset < len ↔ total < offset + len := by omega
  simp only [View.windowLength, promisedLength, hiff]

theorem promisedLength_pos {offset total : Nat} (len : Nat) (h : offset < total) :
    0 < promisedLength offset len total := by
  unfold promisedLength
  split <;> omega

theorem promisedLength_le {offset total : Nat} (len : Nat) (h : offset < total) :
    offset + promisedLength offset len total ≤ total := by
  unfold promisedLength
  split <;> omega

/-! ## What a request comes to -/

/-- On a closed mapping nothing happens. Any other failure takes the window of a view that was there
before. -/
inductive Comes (s : Workspace) (q : Request) (isBind : Bool) : Answer × Workspace → Prop
  | closed {s' : Workspace} (hheld : q.held = none) (hview : s'.view q.name = s.view q.name)
      (htable : s'.table = s.table) : Comes s q isBind (.outcome (.error .unmapped), s')
  | fails {i : Nat} {o : Opening} {e : ChannelError} {s' : Workspace} (hi : q.held = some i)
      (ho : s.table.opening? i = some o)
      (he : View.failsWith s.table o q.offset q.len = some e)
      (hview : s'.view q.name = if isBind then s.view q.name else (s.view q.name).unmap)
      (hlike : s.table.Like s'.table) : Comes s q isBind (.outcome (.error e), s')
  | succeeds {i : Nat} {o : Opening} {s' : Workspace} (hi : q.held = some i)
      (ho : s.table.opening? i = some o)
      (hnone : View.failsWith s.table o q.offset q.len = none)
      (hview : s'.view q.name =
        ⟨some i, some { length := View.windowLength q.offset q.len o.length }, q.offset⟩)
      (hlike : s.table.Like s'.table) : Comes s q isBind (.outcome (.ok ()), s')

theorem Kept.holds_none (k : Kept l s) {m : Mapping} {x : Holder} (hx : s.holding x = m.holds)
    (hm : m.opening? s.table = none) : m.holds = none := by
  cases hi : m.holds with
  | none => rfl
  | some i =>
    obtain ⟨o, ho⟩ := k.counts.opened (hx.trans hi)
    rw [Mapping.opening?, hi, Option.bind_some, ho] at hm
    cases hm

theorem Kept.comes_remap (k : Kept l s) {m : Mapping} {x : Holder} (hx : s.holding x = m.holds)
    {offset len : Nat} {r : Except ChannelError Unit × View × MapTable}
    (hr : (s.view name).remap s.table m offset len = r) :
    Comes s ⟨name, l.held x, offset, len⟩ false (.outcome r.1, s.setView name r.2.1 r.2.2) := by
  have hheld : l.held x = m.holds := (congrFun k.held x).trans hx
  have hremaps := (s.view name).remaps s.table m offset len
  rw [hr] at hremaps
  cases hremaps with
  | closed hm =>
    exact .closed (hheld.trans (k.holds_none hx hm)) (view_setView s name _ _) rfl
  | fails hm he hlike =>
    obtain ⟨i, hi, ho⟩ := Option.bind_eq_some_iff.1 hm
    exact .fails (hheld.trans hi) ho he (view_setView s name _ _) hlike
  | succeeds hi hm hnone hlike =>
    rw [Mapping.opening?, hi] at hm
    exact .succeeds (hheld.trans hi) hm hnone (view_setView s name _ _) hlike

theorem Kept.comes_bind (k : Kept l s) (name source : String) (offset len : Nat) :
    Comes s ⟨name, l.held (.mapping source), offset, len⟩ true
      ((s.bindView name source offset len).map .outcome id) := by
  have hheld : l.held (.mapping source) = (s.mapping source).holds := congrFun k.held _
  have hremaps := View.remaps {} s.table (s.mapping source) offset len
  unfold Workspace.bindView View.bind
  generalize View.remap {} s.table (s.mapping source) offset len = r at hremaps
  cases hremaps with
  | closed hm =>
    exact .closed (hheld.trans (k.holds_none (x := .mapping source) rfl hm)) rfl rfl
  | fails hm he hlike =>
    obtain ⟨i, hi, ho⟩ := Option.bind_eq_some_iff.1 hm
    exact .fails (hheld.trans hi) ho he rfl hlike
  | succeeds hi hm hnone hlike =>
    rw [Mapping.opening?, hi] at hm
    exact .succeeds (hheld.trans hi) hm hnone (view_setView s name _ _)
      (hlike.trans (MapTable.like_release _ (s.view name).attached))

theorem Kept.comes [Paging] (k : Kept l s) (hq : request? l call = some q) :
    Comes s q call.isBind (s.perform call) := by
  cases call with
  | bindView name source offset len =>
    cases hq
    exact k.comes_bind name source offset len
  | remapView name source offset len =>
    cases hq
    exact k.comes_remap (x := .mapping source) rfl rfl
  | moveView name offset len =>
    cases hq
    exact k.comes_remap (m := ⟨(s.view name).attached⟩) (x := .view name) rfl rfl
  | _ => cases hq

/-! ## What is promised is shown -/

theorem site_of_request? (hq : request? l call = some q) : call.site = .view q.name := by
  cases call with
  | bindView name source offset len | remapView name source offset len =>
    cases hq
    rfl
  | moveView name offset len =>
    cases hq
    rfl
  | _ => cases hq

theorem shownRange?_congr (h : s'.view name = s.view name) :
    s'.shownRange? name = s.shownRange? name := by rw [shownRange?, shownRange?, h]

theorem shownRange?_unbound (h : (s.view name).window = none) : s.shownRange? name = none := by
  rw [shownRange?, h]
  rfl

theorem shownRange?_storeView [Paging] (s : Workspace) (name : String) (pos : Nat) (bs : Bytes) :
    (s.storeView name pos bs).2.shownRange? name = s.shownRange? name := by
  unfold storeView
  dsimp only
  split
  · next r hstore =>
    rw [shownRange?, view_setView, shownRange?]
    unfold View.store? at hstore
    split at hstore
    · next w _ hw =>
      split at hstore
      · cases hstore
      · cases hstore
        rfl
      · cases hstore
        rw [hw]
        rfl
    · cases hstore
  · rfl

@[simp] theorem succeeded_ok : (Answer.outcome (.ok ())).succeeded = true := rfl

@[simp] theorem succeeded_error (e : ChannelError) :
    (Answer.outcome (.error e)).succeeded = false := rfl

/-- A request that is granted leaves the view with what it promises, one that fails with nothing. -/
theorem Comes.shownRange? {r : Answer × Workspace} {isBind : Bool} (h : Comes s q isBind r)
    {p : Option Range} (hp : s.shownRange? q.name = p) :
    r.2.shownRange? q.name = if r.1.succeeded then q.range? s.table
      else if isBind ∨ q.held = none then p else none := by
  cases h with
  | closed hheld hview htable =>
    simp only [succeeded_error, Bool.false_eq_true, if_false]
    rw [if_pos (.inr hheld), ← hp]
    exact shownRange?_congr hview
  | fails hi ho he hview hlike =>
    simp only [succeeded_error, Bool.false_eq_true, if_false]
    cases isBind with
    | true =>
      rw [if_pos (.inl rfl), ← hp]
      exact shownRange?_congr hview
    | false =>
      have hlost : ¬(false = true ∨ q.held = none) := by simp [hi]
      rw [if_neg hlost]
      refine shownRange?_unbound ?_
      rw [hview]
      rfl
  | succeeds hi ho hnone hview hlike =>
    have hlt := (View.failsWith_eq_none_iff.1 hnone).1
    simp only [succeeded_ok, if_true]
    rw [Request.range?, hi, Option.bind_some, ho, Option.map_some, ← windowLength_eq q.len hlt,
      Workspace.shownRange?, hview]
    rfl

theorem shownRange?_perform [Paging] (k : Kept l s) {p : Option Range} (hp : s.shownRange? name = p)
    (call : Call) : (s.perform call).2.shownRange? name = s.promise l name p call := by
  unfold promise
  by_cases hsite : call.site = .view name
  · cases hq : request? l call with
    | some q =>
      obtain rfl : q.name = name := Site.view.inj ((site_of_request? hq).symm.trans hsite)
      exact ((k.comes hq).shownRange? hp).trans (if_neg (not_not.2 rfl)).symm
    | none =>
      cases call with
      | unmapView n | releaseView n =>
        cases hsite
        refine (shownRange?_unbound ?_).trans (if_pos rfl).symm
        exact congrArg View.window (view_setView s name _ _)
      | storeView n pos bs =>
        cases hsite
        exact (s.shownRange?_storeView name pos bs).trans hp
      | syncView n => exact hp
      | bindView n source offset len | remapView n source offset len | moveView n offset len =>
        cases hq
      | _ => cases hsite
  · have hview := shownRange?_congr ((s.leaves_perform call).view name hsite)
    rw [hview, hp]
    cases hq : request? l call with
    | some q =>
      have hne : q.name ≠ name := fun hname => hsite (hname ▸ site_of_request? hq)
      exact (if_pos hne).symm
    | none =>
      have hdrops : call.drops? ≠ some name := by
        intro hdrops
        cases call with
        | unmapView n | releaseView n =>
          cases hdrops
          exact hsite rfl
        | _ => cases hdrops
      exact (if_neg hdrops).symm

/-- A range that was promised is on a mapping, and not empty. -/
def Range.Proper (r : Range) : Prop := r.held ≠ none ∧ 0 < r.length

theorem proper_promise [Paging] (k : Kept l s) {p : Option Range} (hp : ∀ r, p = some r → r.Proper)
    (call : Call) {r : Range} (hr : s.promise l name p call = some r) : r.Proper := by
  unfold promise at hr
  cases hq : request? l call with
  | none =>
    simp only [hq] at hr
    split at hr
    · cases hr
    · exact hp r hr
  | some q =>
    have hcomes := k.comes hq
    simp only [hq] at hr
    generalize s.perform call = answer at hcomes hr
    split at hr
    · exact hp r hr
    cases hcomes with
    | closed hheld hview htable =>
      simp only [succeeded_error, Bool.false_eq_true, if_false, if_pos (Or.inr hheld)] at hr
      exact hp r hr
    | fails hi ho he hview hlike =>
      simp only [succeeded_error, Bool.false_eq_true, if_false] at hr
      split at hr
      · exact hp r hr
      · cases hr
    | succeeds hi ho hnone hview hlike =>
      simp only [succeeded_ok, if_true, Request.range?, hi, Option.bind_some, ho, Option.map_some,
        Option.some.injEq] at hr
      obtain rfl := hr
      exact ⟨Option.some_ne_none _,
        promisedLength_pos q.len (View.failsWith_eq_none_iff.1 hnone).1⟩

theorem promised_performAll [Paging] (k : Kept l s) {p : Option Range}
    (hshown : s.shownRange? name = p) (hp : ∀ r, p = some r → r.Proper) (calls : List Call) :
    (s.performAll calls).shownRange? name = s.promised l name p calls ∧
      ∀ r, s.promised l name p calls = some r → r.Proper := by
  induction calls generalizing s l p with
  | nil => exact ⟨hshown, hp⟩
  | cons call calls ih =>
    exact ih (k.perform call) (shownRange?_perform k hshown call)
      fun r hr => proper_promise k hp call hr

/-- What a view shows that stands at a range: so much of the file, if no bytes were stored in it
alone. -/
structure Stands [Paging] (s : Workspace) (name : String) (r : Range) (i : Nat) (o : Opening) :
    Prop where
  held : r.held = some i
  opened : s.table.opening? i = some o
  nonempty : 0 < r.length
  inside : r.offset + r.length ≤ o.length
  bytes_eq : o.mode ≠ .copyOnWrite → (s.view name).bytes s.table =
    slice (s.table.file o).bytes r.offset (r.offset + r.length)

theorem Sound.stands [Paging] (h : Sound s) (k : Kept l s) {r : Range}
    (hr : s.shownRange? name = some r) (hproper : r.Proper) : ∃ i o, Stands s name r i o := by
  obtain ⟨w, hw, rfl⟩ := Option.map_eq_some_iff.1 hr
  obtain ⟨i, hi⟩ := Option.ne_none_iff_exists'.1 hproper.1
  obtain ⟨o, ho⟩ := k.counts.opened (x := .view name) hi
  have hi : (s.view name).attached = some i := hi
  have hopen : (s.view name).opening? s.table = some o := by rw [View.opening?, hi]; exact ho
  have hl : (s.view name).length = w.length := View.length_bound hw
  obtain ⟨-, -, -, hin, -⟩ := (h.views name).place hopen
  refine ⟨i, o, hi, ho, hproper.2, hl ▸ hin, fun hshared => ?_⟩
  rw [View.bytes, (h.views name).range_eq hopen hshared, Nat.min_self, hl]
  rfl

/-! ## Requests that are fulfilled, and those that are not -/

theorem bytes_new_window [Paging] {v : View} {t : MapTable} {i n offset : Nat} {o : Opening}
    (hv : v = ⟨some i, some { length := n }, offset⟩) (ho : t.opened? i = some o.plain) :
    v.bytes t = slice (t.file o).bytes offset (offset + n) := by
  obtain ⟨held, hheld, hplain⟩ := Option.map_eq_some_iff.1 ho
  have hopen : v.opening? t = some held := by
    rw [hv]
    exact hheld
  have hfile : t.file held = t.file o := by
    change t.file held.plain = t.file o.plain
    rw [hplain]
  have hlength : v.length = n := by rw [hv]; rfl
  rw [View.bytes, View.range, hopen, hlength, hv]
  dsimp only
  rw [(View.copied_nil _).shown_eq, hfile, Nat.min_self, Nat.add_zero]

theorem Comes.fulfilled [Paging] {r : Answer × Workspace} {isBind : Bool} (hr : Comes s q isBind r)
    (h : Sound s) (hok : r.1.succeeded = true) :
    ∃ i o, q.held = some i ∧ s.table.opening? i = some o ∧ Fulfilled r.2 q i o := by
  cases hr with
  | closed hheld hview htable => cases hok
  | fails hi ho he hview hlike => cases hok
  | @succeeds i o s' hi ho hnone hview hlike =>
    obtain ⟨hlt, hask⟩ := View.failsWith_eq_none_iff.1 hnone
    have hopened : s.table.opened? i = some o.plain := by rw [MapTable.opened?, ho]; rfl
    have hlength : (s'.view q.name).length = promisedLength q.offset q.len o.length := by
      rw [hview, ← windowLength_eq q.len hlt]
      rfl
    refine ⟨i, o, hi, ho, by rw [hview], by rw [hview]; rfl, by rw [hview], hlength, ?_, ?_, ?_⟩
    · rw [hlength]
      exact promisedLength_pos q.len hlt
    · obtain ⟨file, hname⟩ := ((s.table.grantsNext_iff o).2 hask).name
      have hcovered := (h.covered.within i _ hopened).2 file hname
      have hle := promisedLength_le q.len hlt
      have hfile : (s'.table.file o).bytes = s.table.disk.bytes file := by
        rw [hlike.file, MapTable.file, hname]
        rfl
      rw [hlength, hfile]
      exact Nat.le_trans hle hcovered
    · have hbytes := bytes_new_window hview ((hlike.opened i).trans hopened)
      rw [hbytes, hlength, windowLength_eq q.len hlt]

theorem Comes.succeeded_iff {r : Answer × Workspace} {isBind : Bool} (hr : Comes s q isBind r) :
    r.1.succeeded = true ↔ ∃ i o, q.held = some i ∧ s.table.opening? i = some o ∧
      q.offset < o.length ∧ (s.table.askWindow o).1 = none := by
  cases hr with
  | closed hheld hview htable =>
    refine iff_of_false Bool.false_ne_true ?_
    rintro ⟨i, o, hi, -⟩
    rw [hheld] at hi
    cases hi
  | fails hi ho he hview hlike =>
    refine iff_of_false Bool.false_ne_true ?_
    rintro ⟨i, o, hi', ho', hlt, hask⟩
    obtain rfl := Option.some.inj (hi.symm.trans hi')
    obtain rfl := Option.some.inj (ho.symm.trans ho')
    rw [View.failsWith_eq_none_iff.2 ⟨hlt, hask⟩] at he
    cases he
  | succeeds hi ho hnone hview hlike =>
    exact iff_of_true rfl ⟨_, _, hi, ho, View.failsWith_eq_none_iff.1 hnone⟩

theorem Comes.of_closed {r : Answer × Workspace} {isBind : Bool} (hr : Comes s q isBind r)
    (hheld : q.held = none) : r.1 = .outcome (.error .unmapped) ∧
      r.2.view q.name = s.view q.name ∧ r.2.table = s.table := by
  cases hr with
  | closed _ hview htable => exact ⟨rfl, hview, htable⟩
  | fails hi ho he hview hlike =>
    rw [hheld] at hi
    cases hi
  | succeeds hi ho hnone hview hlike =>
    rw [hheld] at hi
    cases hi

theorem Comes.of_failure {r : Answer × Workspace} {isBind : Bool} (hr : Comes s q isBind r)
    (hfails : r.1.succeeded = false) (hheld : q.held ≠ none) :
    (∃ e, r.1 = .outcome (.error e) ∧ e ≠ .unmapped) ∧
      (isBind = false → r.2.view q.name = (s.view q.name).unmap) ∧ s.table.Like r.2.table := by
  cases hr with
  | closed hnone hview htable => exact absurd hnone hheld
  | fails hi ho he hview hlike =>
    refine ⟨⟨_, rfl, View.failsWith_ne_unmapped he⟩, fun hbind => ?_, hlike⟩
    rw [hview, hbind]
    rfl
  | succeeds hi ho hnone hview hlike => cases hfails

theorem Fulfilled.congr [Paging] {i : Nat} {o o' : Opening} (h : Fulfilled s q i o)
    (hplain : o'.plain = o.plain) : Fulfilled s q i o' := by
  have h' : Fulfilled s q i o.plain :=
    ⟨h.attached, h.bound, h.offset_eq, h.length_eq, h.nonempty, h.inside, h.bytes_eq⟩
  rw [← hplain] at h'
  exact ⟨h'.attached, h'.bound, h'.offset_eq, h'.length_eq, h'.nonempty, h'.inside, h'.bytes_eq⟩

theorem view_performAll [Paging] (s : Workspace) {later : List Call}
    (hlater : ∀ call ∈ later, call.site ≠ .view name) :
    (s.performAll later).view name = s.view name := by
  induction later generalizing s with
  | nil => rfl
  | cons call later ih =>
    have hstep := (s.leaves_perform call).view name (hlater call List.mem_cons_self)
    exact (ih _ fun c hc => hlater c (List.mem_cons_of_mem call hc)).trans hstep

/-- A view can be moved on the mapping that it is attached to, however long it was left alone. -/
theorem Sound.moves_later [Paging] (h : Sound s) (k : Kept l s) {i : Nat} {o : Opening}
    (hi : (s.view name).attached = some i) (ho : s.table.opened? i = some o.plain)
    {later : List Call} (hlater : ∀ call ∈ later, call.site ≠ .view name) {offset : Nat}
    (hlt : offset < o.length) (len : Nat) (hg : (s.performAll later).table.GrantsNext o) :
    let r := (s.performAll later).perform (.moveView name offset len)
    r.1.succeeded = true ∧ Fulfilled r.2 ⟨name, some i, offset, len⟩ i o := by
  intro r
  have h' := (h.performAll later).1
  have k' := k.performAll later
  have hheld : (Ledger.noteAll l s later).held (.view name) = some i := by
    rw [k'.held]
    exact (congrArg View.attached (s.view_performAll hlater)).trans hi
  have hrequest : request? (Ledger.noteAll l s later) (.moveView name offset len) =
      some ⟨name, some i, offset, len⟩ := by
    rw [← hheld]
    rfl
  have hcomes := k'.comes hrequest
  obtain ⟨held, hopened, hplain⟩ := Option.map_eq_some_iff.1 (h.opened_performAll ho later)
  have hheldlt : offset < held.length := by
    change offset < held.plain.length
    rw [hplain]
    exact hlt
  have hgheld : (s.performAll later).table.GrantsNext held := by
    have hdenies : MapTable.denies held.plain = none := by
      rw [hplain]
      exact hg.allows
    exact ⟨hdenies, hg.accepts⟩
  have hok : r.1.succeeded = true :=
    hcomes.succeeded_iff.2 ⟨i, held, rfl, hopened, hheldlt, hgheld.askWindow⟩
  obtain ⟨j, o', hj, ho', hfulfilled⟩ := hcomes.fulfilled h' hok
  obtain rfl := Option.some.inj hj
  obtain rfl := Option.some.inj (hopened.symm.trans ho')
  exact ⟨hok, hfulfilled.congr hplain.symm⟩

/-- A view that lost its window, and is still attached where it was. -/
structure LosesWindow [Paging] (s s' : Workspace) (name : String) (held : Option Nat) : Prop where
  unbound : (s'.view name).isBound = false
  attached : (s'.view name).attached = held
  moves : ∀ later i o, (∀ call ∈ later, call.site ≠ .view name) → held = some i →
    s.table.opening? i = some o → ∀ offset len, offset < o.length →
    (s'.performAll later).table.GrantsNext o →
      let r := (s'.performAll later).perform (.moveView name offset len)
      r.1.succeeded = true ∧ Fulfilled r.2 ⟨name, some i, offset, len⟩ i o

/-- After any calls a view shows the range that it was promised last, and none where that was lost.
A window is had exactly on an open mapping, in front of its end and where the system grants it, and
is the range asked for then. On a closed mapping, or where a view was never bound or was released
since, nothing changes. A request that fails for another reason takes the window of its view, which
can still be moved on the mapping that it was bound to. -/
theorem views_show_what_was_promised [Paging] {t : MapTable} (ht : t.openings = [])
    (hshort : ∀ file, (t.disk.bytes file).length < maxWord) (calls : List Call) :
    let start : Workspace := { table := t }
    let s := start.performAll calls
    let l := Ledger.noteAll {} start calls
    (∀ name, s.shownRange? name = start.promised {} name none calls ∧
      ∀ r, start.promised {} name none calls = some r → ∃ i o, Stands s name r i o) ∧
    ∀ call q, request? l call = some q →
      let r := s.perform call
      (r.1.succeeded = true ↔ ∃ i o, q.held = some i ∧ s.table.opening? i = some o ∧
        q.offset < o.length ∧ (s.table.askWindow o).1 = none) ∧
      (r.1.succeeded = true → ∃ i o, q.held = some i ∧ s.table.opening? i = some o ∧
        Fulfilled r.2 q i o) ∧
      (q.held = none → r.1 = .outcome (.error .unmapped) ∧ r.2.view q.name = s.view q.name ∧
        r.2.table = s.table) ∧
      (r.1.succeeded = false → q.held ≠ none → (∃ e, r.1 = .outcome (.error e) ∧ e ≠ .unmapped) ∧
        (call.isBind = false → LosesWindow s r.2 q.name (l.held (.view q.name)))) := by
  intro start s l
  obtain ⟨h, -⟩ := (sound_start ht hshort).performAll calls
  have k : Kept l s := (kept_start ht).performAll calls
  refine ⟨fun name => ?_, fun call q hq => ?_⟩
  · have hnone : start.shownRange? name = none := rfl
    obtain ⟨hshown, hproper⟩ := promised_performAll (kept_start ht) hnone nofun calls
    exact ⟨hshown, fun r hr => h.stands k (hshown.trans hr) (hproper r hr)⟩
  · intro r
    have hcomes : Comes s q call.isBind r := k.comes hq
    refine ⟨hcomes.succeeded_iff, hcomes.fulfilled h, hcomes.of_closed, fun hfails hheld => ?_⟩
    obtain ⟨herror, hview, hlike⟩ := hcomes.of_failure hfails hheld
    refine ⟨herror, fun hbind => ⟨?_, ?_, fun later i o hlater hi ho offset len hlt hg => ?_⟩⟩
    · rw [hview hbind]
      rfl
    · rw [hview hbind, k.held]
      rfl
    · have hattached : (r.2.view q.name).attached = some i := by
        rw [hview hbind, ← hi, k.held]
        rfl
      have hopened : r.2.table.opened? i = some o.plain := by
        rw [hlike.opened, MapTable.opened?, ho]
        rfl
      exact (h.perform call).1.moves_later (k.perform call) hattached hopened hlater hlt len hg

/-- A view fails to move behind the end of another mapping. The only handle of its own mapping is
closed then, on which it is moved. -/
theorem views_show_what_was_promised_attached :
    let t : MapTable := { disk := ⟨[("f", .ofBytes [97, 98, 99]), ("g", .ofBytes [100])]⟩ }
    let calls : List Call :=
      [.openMapping "m" "f" .readOnly, .openMapping "n" "g" .readOnly, .bindView "v" "m" 1 9]
    let s := performAll { table := t } calls
    let r := s.perform (.remapView "v" "n" 5 1)
    let r' := (r.2.performAll [.closeMapping "m"]).perform (.moveView "v" 2 0)
    s.shownRange? "v" = some ⟨some 0, 1, 2⟩ ∧ (s.view "v").bytes s.table = [98, 99] ∧
      (r.1.succeeded = false ∧ (r.2.view "v").isBound = false) ∧
      r'.1.succeeded = true ∧ (r'.2.view "v").bytes r'.2.table = [99] := by
  intro t calls s r r'
  let o : Opening :=
    { name := some "f"
      path := some "f"
      length := 3
      mode := .readOnly
      readable := true
      writable := false
      holders := 2 }
  have hshort : ∀ file, (t.disk.bytes file).length < maxWord := by
    apply length_bytes_lt (by decide)
    unfold t
    cbv
  have ho : s.table.opening? 0 = some o := by
    unfold s calls t o
    cbv
  have hpromised : promised { table := t } {} "v" none calls = some ⟨some 0, 1, 2⟩ := by
    unfold calls t
    cbv
  have hheld : (Ledger.noteAll {} { table := t } calls).held (.view "v") = some 0 := by
    unfold calls t
    cbv
  have hother : (Ledger.noteAll {} { table := t } calls).held (.mapping "n") = some 1 := by
    unfold calls t
    cbv
  have hfails : r.1.succeeded = false := by
    unfold r s calls t
    cbv
  have hgrants : (r.2.performAll [.closeMapping "m"]).table.GrantsNext o := by
    refine ⟨rfl, ?_⟩
    unfold r s calls t
    cbv
  obtain ⟨hviews, hrequests⟩ := views_show_what_was_promised (t := t) rfl hshort calls
  obtain ⟨hshown, hstands⟩ := hviews "v"
  obtain ⟨i, o', hi, ho', -, -, hbytes⟩ := hstands _ hpromised
  obtain rfl : 0 = i := Option.some.inj hi
  obtain rfl : o = o' := Option.some.inj (ho.symm.trans ho')
  obtain ⟨-, -, -, hlost⟩ := hrequests (.remapView "v" "n" 5 1) _ rfl
  obtain ⟨-, hloses⟩ := hlost hfails (by rw [hother]; exact Option.some_ne_none 1)
  obtain ⟨hunbound, -, hmoves⟩ := hloses rfl
  obtain ⟨hmoved, hfulfilled⟩ := hmoves [.closeMapping "m"] 0 o (by simp [Call.site]) hheld ho 2 0
    (by decide) hgrants
  refine ⟨hshown.trans hpromised, (hbytes (by decide)).trans ?_, ⟨hfails, hunbound⟩, hmoved,
    hfulfilled.bytes_eq.trans ?_⟩
  · unfold calls t o
    cbv
  · rw [hfulfilled.length_eq]
    unfold calls t o
    cbv

end Workspace

end ByteChannel
