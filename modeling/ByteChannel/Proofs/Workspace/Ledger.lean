import Mathlib
import ByteChannel.Proofs.Mapped.Holding
import ByteChannel.Proofs.Workspace.Call

/-!
# The count of holders is exact

A ledger notes, from what was called and what was answered, which mapping every handle and every
view stands for. The count of a mapping is the number of its entries: the handles that are open,
with the one in each open channel, and the views that were last bound to it and not released since,
with the one in each open channel.
-/

namespace ByteChannel.Workspace

open MapTable (Passes)

/-- Those who can hold a mapping. -/
inductive Holder
  | mapping (name : String)
  | view (name : String)
  /-- The handle in a channel. -/
  | channel (name : String)
  /-- The view in a channel. -/
  | window (name : String)
  deriving DecidableEq, Repr

/-- The mappings that handles and views stand for, by the order in which they were made. -/
structure Ledger where
  made : Nat := 0
  held : Holder → Option Nat := fun _ => none

def Answer.succeeded : Answer → Bool
  | .outcome (.ok ()) => true
  | _ => false

/-- Whether the system granted a window to the channel that is called. -/
def grants [Paging] (s : Workspace) : Call → Bool
  | .callChannel name call =>
    MapTable.granted s.table ((s.channel name).perform call).2.table (s.channel name).mapping
  | _ => false

namespace Ledger

def put (l : Ledger) (x : Holder) (held : Option Nat) : Ledger :=
  { l with held := Function.update l.held x held }

def make (l : Ledger) (x : Holder) : Ledger := { l.put x (some l.made) with made := l.made + 1 }

/-- What a call adds to the ledger or takes from it, by its answer. A view that moves stays with its
mapping, and so does a view that loses its window. -/
def note (l : Ledger) (call : Call) (answer : Answer) (granted : Bool) : Ledger :=
  match call with
  | .openMapping name _ _ => if answer.succeeded then l.make (.mapping name) else l
  | .mapFile name _ _ _ _ => if answer.succeeded then l.make (.mapping name) else l
  | .cloneMapping name source => l.put (.mapping name) (l.held (.mapping source))
  | .cloneChannel name source => l.put (.mapping name) (l.held (.channel source))
  | .closeMapping name => l.put (.mapping name) none
  | .bindView name source _ _ =>
    if answer.succeeded then l.put (.view name) (l.held (.mapping source)) else l
  | .remapView name source _ _ =>
    if answer.succeeded then l.put (.view name) (l.held (.mapping source)) else l
  | .moveView _ _ _ | .unmapView _ | .storeView _ _ _ | .syncView _ => l
  | .releaseView name => l.put (.view name) none
  | .openChannel name _ _ _ => if answer.succeeded then l.make (.channel name) else l
  | .attachChannel name source _ =>
    if answer.succeeded then l.put (.channel name) (l.held (.mapping source)) else l
  | .callChannel name _ =>
    if granted then l.put (.window name) (l.held (.channel name)) else l
  | .closeChannel name | .dropChannel name => (l.put (.window name) none).put (.channel name) none

@[simp] theorem put_self (l : Ledger) (x : Holder) : l.put x (l.held x) = l := by
  rw [put, Function.update_eq_self]

def noteAll [Paging] (l : Ledger) (s : Workspace) : List Call → Ledger
  | [] => l
  | call :: calls =>
    (l.note call (s.perform call).1 (s.grants call)).noteAll (s.perform call).2 calls

end Ledger

/-! ## Who holds what in a workspace -/

def holding (s : Workspace) : Holder → Option Nat
  | .mapping n => (s.mapping n).holds
  | .view n => (s.view n).attached
  | .channel n => (s.channel n).mapping.holds
  | .window n => (s.channel n).view.attached

def Holder.site : Holder → Site
  | .mapping n => .mapping n
  | .view n => .view n
  | .channel n | .window n => .channel n

variable {s s' : Workspace} {name : String} {site : Site}

theorem holding_of_leaves (h : Leaves site s s') {x : Holder} (hx : site ≠ x.site) :
    s'.holding x = s.holding x := by
  cases x with
  | mapping n => exact congrArg Mapping.holds (h.mapping n hx)
  | view n => exact congrArg View.attached (h.view n hx)
  | channel n => exact congrArg (·.mapping.holds) (h.channel n hx)
  | window n => exact congrArg (·.view.attached) (h.channel n hx)

theorem holding_mapping (h : Leaves (.mapping name) s s') :
    s'.holding = Function.update s.holding (.mapping name) (s'.mapping name).holds := by
  rw [Function.eq_update_iff]
  refine ⟨rfl, fun x hx => holding_of_leaves h fun hsite => hx ?_⟩
  cases x <;> cases hsite
  rfl

theorem holding_view (h : Leaves (.view name) s s') :
    s'.holding = Function.update s.holding (.view name) (s'.view name).attached := by
  rw [Function.eq_update_iff]
  refine ⟨rfl, fun x hx => holding_of_leaves h fun hsite => hx ?_⟩
  cases x <;> cases hsite
  rfl

theorem holding_channel (h : Leaves (.channel name) s s') :
    s'.holding = Function.update
      (Function.update s.holding (.window name) (s'.channel name).view.attached) (.channel name)
        (s'.channel name).mapping.holds := by
  rw [Function.eq_update_iff]
  refine ⟨rfl, fun x hx => ?_⟩
  by_cases hwindow : x = .window name
  · rw [hwindow, Function.update_self]
    rfl
  · rw [Function.update_of_ne hwindow]
    apply holding_of_leaves h
    intro hsite
    cases x <;> cases hsite
    · exact hx rfl
    · exact hwindow rfl

theorem holding_table (s : Workspace) (t : MapTable) :
    holding { s with table := t } = s.holding := by
  funext x
  cases x with
  | mapping n => rfl
  | view n => rfl
  | channel n => exact congrArg (·.mapping.holds) ((leaves_table (.view n) s t).channel n nofun)
  | window n => exact congrArg (·.view.attached) ((leaves_table (.view n) s t).channel n nofun)

def Counts (held : Holder → Option Nat) (t : MapTable) : Prop :=
  ∃ used : Finset Holder, (∀ x, x ∉ used → held x = none) ∧
    ∀ i, t.holders i = ∑ x ∈ used, holds (held x) i

namespace Counts

variable {held : Holder → Option Nat} {t t' : MapTable}

theorem congr (h : Counts held t) (hsame : ∀ i, t'.holders i = t.holders i) : Counts held t' := by
  obtain ⟨used, hunused, hcount⟩ := h
  exact ⟨used, hunused, fun i => (hsame i).trans (hcount i)⟩

theorem le (h : Counts held t) (x : Holder) (i : Nat) : holds (held x) i ≤ t.holders i := by
  obtain ⟨used, hunused, hcount⟩ := h
  by_cases hx : x ∈ used
  · rw [hcount]
    exact Finset.single_le_sum (f := fun x => holds (held x) i) (fun _ _ => Nat.zero_le _) hx
  · rw [hunused x hx]
    exact Nat.zero_le _

theorem pos (h : Counts held t) {x : Holder} {i : Nat} (hx : held x = some i) :
    0 < t.holders i := by
  have hle := h.le x i
  rwa [hx, holds_some, if_pos rfl] at hle

theorem opened (h : Counts held t) {x : Holder} {i : Nat} (hx : held x = some i) :
    ∃ o, t.opening? i = some o :=
  MapTable.opening?_of_holders (h.pos hx)

/-- What someone holds changes hands with the counts. -/
theorem pass (h : Counts held t) (x : Holder) {held' : Option Nat}
    (hpasses : Passes t (held x) t' held') : Counts (Function.update held x held') t' := by
  have hmoves := hpasses (h.le x)
  obtain ⟨used, hunused, hcount⟩ := h
  refine ⟨insert x used, fun y hy => ?_, fun i => ?_⟩
  · rw [Finset.mem_insert, not_or] at hy
    rw [Function.update_of_ne hy.1, hunused y hy.2]
  · have hrest : ∑ y ∈ used.erase x, holds (Function.update held x held' y) i =
        ∑ y ∈ used.erase x, holds (held y) i :=
      Finset.sum_congr rfl fun y hy => by rw [Function.update_of_ne (Finset.ne_of_mem_erase hy)]
    have hold : t.holders i = holds (held x) i + ∑ y ∈ used.erase x, holds (held y) i := by
      rw [hcount]
      by_cases hx : x ∈ used
      · rw [Finset.add_sum_erase _ (fun y => holds (held y) i) hx]
      · rw [hunused x hx, holds_none, Nat.zero_add, Finset.erase_eq_of_notMem hx]
    rw [← Finset.add_sum_erase _ _ (Finset.mem_insert_self x used), Finset.erase_insert_eq_erase,
      Function.update_self, hrest]
    have := hmoves i
    omega

theorem encard_eq (h : Counts held t) (i : Nat) :
    {x | held x = some i}.encard = t.holders i := by
  obtain ⟨used, hunused, hcount⟩ := h
  have hset : {x | held x = some i} = (used.filter fun x => held x = some i : Finset Holder) := by
    ext x
    rw [Finset.coe_filter, Set.mem_ofPred_eq, Set.mem_ofPred_eq]
    refine ⟨fun hx => ⟨?_, hx⟩, And.right⟩
    by_contra hnot
    rw [hunused x hnot] at hx
    cases hx
  rw [hset, Set.encard_coe_eq_coe_finsetCard, Finset.card_filter, hcount]
  rfl

end Counts

/-! ## The ledger tells who holds what -/

/-- A ledger of a workspace, whose counts are right. -/
structure Kept (l : Ledger) (s : Workspace) : Prop where
  made : l.made = s.table.openings.length
  held : l.held = s.holding
  counts : Counts s.holding s.table
  /-- The view in a closed channel was released. -/
  closed : ∀ n, (s.channel n).mapping.holds = none → (s.channel n).view.attached = none

variable {l : Ledger}

namespace Kept

theorem closed_of_leaves (h : Kept l s) (hs : Leaves site s s') (hsite : ∀ n, site ≠ .channel n)
    (n : String) (hn : (s'.channel n).mapping.holds = none) :
    (s'.channel n).view.attached = none := by
  rw [hs.channel n (hsite n)] at hn ⊢
  exact h.closed n hn

theorem mapping (h : Kept l s) (hs : Leaves (.mapping name) s s') {made : Nat}
    {held : Option Nat} (hmade : made = s'.table.openings.length)
    (hheld : (s'.mapping name).holds = held)
    (hpasses : Passes s.table (s.mapping name).holds s'.table held) :
    Kept { l.put (.mapping name) held with made := made } s' where
  made := hmade
  held := by
    rw [holding_mapping hs, ← h.held, hheld]
    rfl
  counts := by
    rw [holding_mapping hs, hheld]
    exact h.counts.pass (.mapping name) hpasses
  closed := h.closed_of_leaves hs nofun

theorem view (h : Kept l s) (hs : Leaves (.view name) s s') {held : Option Nat}
    (hmade : s'.table.openings.length = s.table.openings.length)
    (hheld : (s'.view name).attached = held)
    (hpasses : Passes s.table (s.view name).attached s'.table held) :
    Kept (l.put (.view name) held) s' where
  made := h.made.trans hmade.symm
  held := by
    rw [holding_view hs, ← h.held, hheld]
    rfl
  counts := by
    rw [holding_view hs, hheld]
    exact h.counts.pass (.view name) hpasses
  closed := h.closed_of_leaves hs nofun

theorem channel (h : Kept l s) (hs : Leaves (.channel name) s s') {made : Nat}
    {shown held : Option Nat} {t : MapTable} (hmade : made = s'.table.openings.length)
    (hshown : (s'.channel name).view.attached = shown)
    (hheld : (s'.channel name).mapping.holds = held) (hclosed : held = none → shown = none)
    (hview : Passes s.table (s.channel name).view.attached t shown)
    (hmapping : Passes t (s.channel name).mapping.holds s'.table held) :
    Kept { (l.put (.window name) shown).put (.channel name) held with made := made } s' where
  made := hmade
  held := by
    rw [holding_channel hs, ← h.held, hshown, hheld]
    rfl
  counts := by
    rw [holding_channel hs, hshown, hheld]
    exact (h.counts.pass (.window name) hview).pass (.channel name) hmapping
  closed n hn := by
    by_cases he : n = name
    · rw [he] at hn ⊢
      rw [hshown]
      exact hclosed (hheld ▸ hn)
    · rw [hs.channel n fun hsite => he (by cases hsite; rfl)] at hn ⊢
      exact h.closed n hn

/-! ### Mappings -/

theorem setMapping (h : Kept l s) {made : Nat} {m : Mapping} {t : MapTable}
    (hmade : made = t.openings.length) (hpasses : Passes s.table none t m.holds) :
    Kept { l.put (.mapping name) m.holds with made := made } (s.setMapping name m t) := by
  have hlike := MapTable.like_release t (s.mapping name).holds
  refine h.mapping (leaves_setMapping s name m t) ?_ (congrArg Mapping.holds (by simp))
    (hpasses.exchange _)
  exact hmade.trans (MapTable.length_openings_of_opened hlike.opened).symm

/-- A mapping is made under a name or nothing changes. -/
theorem takeMapping (h : Kept l s) {r : Except ChannelError Mapping × MapTable}
    (hr : MapTable.Makes s.table r) :
    let answer := Answer.outcome (s.takeMapping name r).1
    Kept (if answer.succeeded then l.make (.mapping name) else l) (s.takeMapping name r).2 := by
  obtain ⟨e, rfl⟩ | ⟨t, rfl, hlen, hpasses⟩ := hr
  · exact h
  · rw [← h.made] at hpasses hlen
    rw [← h.made]
    exact h.setMapping (m := ⟨some l.made⟩) hlen.symm hpasses

theorem clone (h : Kept l s) {x : Holder} {m : Mapping} (hx : s.holding x = m.holds) :
    Kept (l.put (.mapping name) (l.held x))
      (s.setMapping name (m.clone s.table).1 (m.clone s.table).2) := by
  have hheld (i : Nat) (hi : m.holds = some i) : ∃ o, s.table.opening? i = some o :=
    h.counts.opened (hx.trans hi)
  have hlen := MapTable.length_openings_of_opened (MapTable.like_clone m s.table).opened
  rw [h.held, hx]
  exact h.setMapping (h.made.trans hlen.symm) (MapTable.passes_clone hheld)

/-! ### Views -/

/-- A view is bound anew where that succeeds, and stays where it was otherwise. -/
theorem rebind (h : Kept l s) {m : Mapping} {v : View} {t : MapTable} {x : Holder}
    {r : Except ChannelError Unit} (hx : s.holding x = m.holds)
    (hr : View.Rebinds m (s.view name) s.table v t)
    (hok : r = .ok () ↔ MapTable.granted s.table t m = true) :
    Kept (if (Answer.outcome r).succeeded then l.put (.view name) (l.held x) else l)
      (s.setView name v t) := by
  have hview := h.view (leaves_setView s name v t)
    (MapTable.length_openings_of_opened hr.opened)
    (congrArg View.attached (view_setView s name v t)) hr.passes
  rw [hr.attached] at hview
  cases r with
  | ok u =>
    rw [if_pos (hok.1 rfl), ← hx, ← h.held] at hview
    exact hview
  | error e =>
    have hno : ¬MapTable.granted s.table t m = true := fun hg => nomatch hok.2 hg
    have hstays : l.held (.view name) = (s.view name).attached := congrFun h.held _
    rw [if_neg hno, ← hstays, Ledger.put_self] at hview
    exact hview

theorem table (h : Kept l s) {t : MapTable} (hmade : t.openings.length = s.table.openings.length)
    (hsame : ∀ i, t.holders i = s.table.holders i) : Kept l { s with table := t } where
  made := h.made.trans hmade.symm
  held := by rw [holding_table, h.held]
  counts := by
    rw [holding_table]
    exact h.counts.congr hsame
  closed := h.closed_of_leaves (leaves_table (.view "") s t) nofun

theorem bindView (h : Kept l s) (source : String) (offset len : Nat) :
    let answer := Answer.outcome (s.bindView name source offset len).1
    Kept (if answer.succeeded then l.put (.view name) (l.held (.mapping source)) else l)
      (s.bindView name source offset len).2 := by
  obtain ⟨hr, hok⟩ := View.rebinds_remap {} s.table (s.mapping source) offset len
  have hlen := MapTable.length_openings_of_opened hr.opened
  have hattached := hr.attached
  unfold Workspace.bindView View.bind
  generalize View.remap {} s.table (s.mapping source) offset len = r at hr hok hlen hattached
  obtain ⟨outcome, v, t⟩ := r
  cases outcome with
  | ok u =>
    rw [if_pos (hok.1 rfl)] at hattached
    have hheld : l.held (.mapping source) = v.attached := hattached ▸ congrFun h.held _
    have hlike := MapTable.like_release t (s.view name).attached
    have hlen' := MapTable.length_openings_of_opened hlike.opened
    have hview := h.view (leaves_setView s name v ((s.view name).release t).2)
      (hlen'.trans hlen) (congrArg View.attached (by simp)) (hr.passes.exchange _)
    rw [← hheld] at hview
    exact hview
  | error e =>
    have hno : ¬MapTable.granted s.table t (s.mapping source) = true := fun hg => nomatch hok.2 hg
    rw [if_neg hno] at hattached
    have hnone : v.attached = none := hattached
    have hrelease : (v.release t).2 = t := by rw [View.release, hnone]; rfl
    have hsame := hr.passes fun _ => Nat.zero_le _
    change Kept l { s with table := (v.release t).2 }
    rw [hrelease]
    refine h.table hlen fun i => ?_
    have hi := hsame i
    rw [hnone] at hi
    exact hi

theorem stays (h : Kept l s) {v : View} {t : MapTable} {m : Mapping}
    (hr : View.Rebinds m (s.view name) s.table v t) (hsame : v.attached = (s.view name).attached) :
    Kept l (s.setView name v t) := by
  have hstays : l.held (.view name) = (s.view name).attached := congrFun h.held _
  have hview := h.view (leaves_setView s name v t)
    (MapTable.length_openings_of_opened hr.opened)
    (congrArg View.attached (view_setView s name v t)) hr.passes
  rwa [hsame, ← hstays, Ledger.put_self] at hview

/-! ### Channels -/

theorem window (h : Kept l s) {d : Mapped} (hmapping : d.mapping = (s.channel name).mapping)
    (hmade : d.table.openings.length = s.table.openings.length)
    (hclosed : d.mapping.holds = none → d.view.attached = none)
    (hpasses : Passes s.table (s.channel name).view.attached d.table d.view.attached) :
    Kept (l.put (.window name) d.view.attached) (s.setChannel name d) := by
  have hheld : (l.put (.window name) d.view.attached).held (.channel name) = d.mapping.holds := by
    rw [hmapping]
    exact congrFun h.held _
  have hkept := h.channel (leaves_setChannel s name d) (h.made.trans hmade.symm)
    (congrArg (·.view.attached) (channel_setChannel s name d))
    (congrArg (·.mapping.holds) (channel_setChannel s name d)) hclosed hpasses
    (hmapping ▸ .refl _ _)
  rwa [← hheld, Ledger.put_self] at hkept

theorem starts (h : Kept l s) {m : Mapping} {made : Nat} {r : Except ChannelError Unit × Mapped}
    (hr : (s.channel name).Starts m made r) :
    Kept (if (Answer.outcome r.1).succeeded then
        { l.put (.channel name) m.holds with made := made } else l) (s.setChannel name r.2) := by
  have hview : l.held (.window name) = (s.channel name).view.attached := congrFun h.held _
  obtain ⟨e, rfl⟩ | ⟨d, rfl, hclosed, rfl, hsame, hmade, hpasses⟩ := hr
  · have hkept := h.window (d := s.channel name) rfl rfl (h.closed name) (.refl _ _)
    rwa [← hview, Ledger.put_self] at hkept
  · have hnone := h.closed name hclosed
    have hkept := h.channel (leaves_setChannel s name d) (t := s.table) hmade.symm
      (congrArg (·.view.attached) (channel_setChannel s name d))
      (congrArg (·.mapping.holds) (channel_setChannel s name d)) (fun _ => hsame.trans hnone)
      (hsame ▸ .refl _ _) (hclosed ▸ hpasses)
    rwa [hsame, ← hview, Ledger.put_self] at hkept

theorem stops (h : Kept l s) (hs : Leaves (.channel name) s s')
    (hstops : (s.channel name).Stops (s'.channel name)) :
    Kept ((l.put (.window name) none).put (.channel name) none) s' := by
  obtain ⟨hm, hv, hmade, t, hview, hmapping⟩ := hstops
  exact h.channel hs (h.made.trans hmade.symm) hv (congrArg Mapping.holds hm) (fun _ => rfl) hview
    hmapping

theorem callChannel [Paging] (h : Kept l s) (call : Mapped.Call) :
    let d := ((s.channel name).perform call).2
    Kept (if MapTable.granted s.table d.table (s.channel name).mapping then
        l.put (.window name) (l.held (.channel name)) else l) (s.setChannel name d) := by
  intro d
  obtain ⟨hmapping, hr⟩ := Mapped.rebinds_perform (s.channel name) call
  have hview : l.held (.window name) = (s.channel name).view.attached := congrFun h.held _
  have hheld : l.held (.channel name) = (s.channel name).mapping.holds := congrFun h.held _
  have hattached : d.view.attached = if MapTable.granted s.table d.table (s.channel name).mapping
      then (s.channel name).mapping.holds else (s.channel name).view.attached := hr.attached
  have hclosed : d.mapping.holds = none → d.view.attached = none := by
    intro hnone
    have hold : (s.channel name).mapping.holds = none := hmapping ▸ hnone
    rw [hattached, hold, h.closed name hold, ite_self]
  have hkept := h.window hmapping (MapTable.length_openings_of_opened hr.opened) hclosed hr.passes
  rw [hattached, ← hview, ← hheld] at hkept
  by_cases hg : MapTable.granted s.table d.table (s.channel name).mapping = true
  · rw [if_pos hg] at hkept ⊢
    exact hkept
  · rw [if_neg hg, Ledger.put_self] at hkept
    rwa [if_neg hg]

/-! ### Any call -/

theorem perform [Paging] (h : Kept l s) (call : Call) :
    Kept (l.note call (s.perform call).1 (s.grants call)) (s.perform call).2 := by
  cases call with
  | openMapping name path mode => exact h.takeMapping (MapTable.makes_openPath s.table path mode)
  | mapFile name path access mode size =>
    simp only [Workspace.perform, mapFile, Prod.map, id_eq]
    split
    · exact h
    · exact h.takeMapping (MapTable.makes_ofFile s.table _ mode size)
  | cloneMapping name source => exact h.clone (x := .mapping source) rfl
  | cloneChannel name source => exact h.clone (x := .channel source) rfl
  | closeMapping name => exact h.setMapping (m := {}) h.made (.refl _ _)
  | bindView name source offset len => exact h.bindView source offset len
  | remapView name source offset len =>
    obtain ⟨hr, hok⟩ := (s.view name).rebinds_remap s.table (s.mapping source) offset len
    exact h.rebind (x := .mapping source) rfl hr hok
  | moveView name offset len =>
    have hr := ((s.view name).rebinds_remap s.table ⟨(s.view name).attached⟩ offset len).1
    exact h.stays hr (hr.attached.trans (ite_self _))
  | unmapView name => exact h.stays (View.rebinds_unmap {} _ _) rfl
  | releaseView name =>
    have hlike := MapTable.like_release s.table (s.view name).attached
    exact h.view (leaves_setView s name _ _) (MapTable.length_openings_of_opened hlike.opened)
      (congrArg View.attached (view_setView s name _ _)) (MapTable.passes_release _ _)
  | storeView name pos bs =>
    simp only [Workspace.perform, storeView, Prod.map, id_eq]
    split
    · next r hr =>
      have hr := View.rebinds_store? {} hr
      exact h.stays hr hr.attached
    · exact h
  | syncView name =>
    have hsync := (s.view name).openings_sync s.table
    exact h.table (congrArg List.length hsync) (MapTable.holders_eq_of_openings hsync)
  | openChannel name path mode keepPrivate =>
    have hkept := h.starts ((s.channel name).starts_openWide path mode keepPrivate)
    change Kept (if _ then { l.put (.channel name) (some s.table.openings.length) with
      made := s.table.openings.length + 1 } else l) _ at hkept
    rw [← h.made] at hkept
    exact hkept
  | attachChannel name source mode =>
    have hkept := h.starts ((s.channel name).starts_attach (s.mapping source) mode
      fun i hi => h.counts.opened (x := .mapping source) hi)
    have hsource : (s.mapping source).holds = l.held (.mapping source) :=
      (congrFun h.held (.mapping source)).symm
    have hmade : (s.channel name).table.openings.length = l.made := h.made.symm
    rw [hsource, hmade] at hkept
    exact hkept
  | callChannel name call => exact h.callChannel call
  | closeChannel name =>
    apply h.stops (leaves_setChannel s name _)
    rw [channel_setChannel]
    exact (s.channel name).stops_close (h.closed name)
  | dropChannel name =>
    obtain ⟨-, -, hmade, hpasses⟩ := (s.channel name).stops_discard (h.closed name)
    apply h.stops (leaves_dropChannel s name)
    rw [channel_dropChannel]
    exact ⟨rfl, rfl, hmade, hpasses⟩

theorem performAll [Paging] (h : Kept l s) (calls : List Call) :
    Kept (l.noteAll s calls) (s.performAll calls) := by
  induction calls generalizing l s with
  | nil => exact h
  | cons call calls ih => exact ih (h.perform call)

theorem encard_eq (h : Kept l s) {m : Mapping} {i : Nat} (hm : m.holds = some i) :
    {x | l.held x = some i}.encard = m.holderCount s.table := by
  rw [MapTable.holderCount_eq hm, h.held]
  exact h.counts.encard_eq i

/-- Where the ledger stays as it is, so do the counts. -/
theorem holderCount_eq (h : Kept l s) (h' : Kept l s') (m : Mapping) :
    m.holderCount s'.table = m.holderCount s.table := by
  cases hm : m.holds with
  | none => simp only [Mapping.holderCount, Mapping.opening?, hm, Option.bind_none]
  | some i =>
    have hcount := (h'.encard_eq hm).symm.trans (h.encard_eq hm)
    exact_mod_cast hcount

end Kept

theorem kept_start {t : MapTable} (ht : t.openings = []) : Kept {} { table := t } where
  made := by rw [ht]; rfl
  held := by
    funext x
    cases x <;> rfl
  counts := by
    refine ⟨∅, fun x _ => ?_, fun i => ?_⟩
    · cases x <;> rfl
    · rw [Finset.sum_empty, MapTable.holders, MapTable.opening?, ht]
      rfl
  closed _ _ := rfl

def SameCounts (s s' : Workspace) : Prop :=
  ∀ m : Mapping, m.holderCount s'.table = m.holderCount s.table

theorem grants_seek [Paging] (s : Workspace) (name : String) (o : Origin) (side : Side) :
    s.grants (.callChannel name (.act (.op (.seek o side)))) = false :=
  MapTable.granted_of_asked_eq ((s.channel name).windowsAsked_seek o side) _

/-- After any calls the ledger tells who holds what, and a mapping is counted once for each of its
holders. A window that is dropped or refused, or left by a seek, changes no count. -/
theorem holderCount_eq_encard [Paging] {t : MapTable} (ht : t.openings = []) (calls : List Call) :
    let s := performAll { table := t } calls
    let l := Ledger.noteAll {} { table := t } calls
    s.holding = l.held ∧
      (∀ (m : Mapping) (i : Nat), m.holds = some i →
        {x | l.held x = some i}.encard = m.holderCount s.table) ∧
      (∀ name, SameCounts s (s.unmapView name)) ∧
      (∀ name offset len, SameCounts s (s.moveView name offset len).2) ∧
      (∀ name source offset len e, (s.bindView name source offset len).1 = .error e →
        SameCounts s (s.bindView name source offset len).2) ∧
      (∀ name source offset len e, (s.remapView name source offset len).1 = .error e →
        SameCounts s (s.remapView name source offset len).2) ∧
      (∀ name call, s.grants (.callChannel name call) = false →
        SameCounts s (s.perform (.callChannel name call)).2) ∧
      ∀ name o side,
        SameCounts s (s.perform (.callChannel name (.act (.op (.seek o side))))).2 := by
  intro s l
  have h : Kept l s := (kept_start ht).performAll calls
  have hsame (call : Call) (hnote : l.note call (s.perform call).1 (s.grants call) = l) :
      SameCounts s (s.perform call).2 := by
    have hnext := h.perform call
    rw [hnote] at hnext
    exact h.holderCount_eq hnext
  have hungranted {name : String} {call : Mapped.Call}
      (hno : s.grants (.callChannel name call) = false) :
      SameCounts s (s.perform (.callChannel name call)).2 := by
    apply hsame
    rw [hno]
    rfl
  refine ⟨h.held.symm, fun m i hm => h.encard_eq hm, ?_, ?_, ?_, ?_, fun _ _ => hungranted,
    fun name o side => hungranted (s.grants_seek name o side)⟩
  · exact fun name => hsame (.unmapView name) rfl
  · exact fun name offset len => hsame (.moveView name offset len) rfl
  · intro name source offset len e he
    have hfailed : (s.perform (.bindView name source offset len)).1 = .outcome (.error e) :=
      congrArg Answer.outcome he
    exact hsame (.bindView name source offset len) (by rw [hfailed]; rfl)
  · intro name source offset len e he
    have hfailed : (s.perform (.remapView name source offset len)).1 = .outcome (.error e) :=
      congrArg Answer.outcome he
    exact hsame (.remapView name source offset len) (by rw [hfailed]; rfl)

/-- A clone, a view and a channel that has read hold the mapping of a handle closed since. -/
theorem holderCount_eq_encard_shared :
    let t : MapTable := { disk := ⟨[("f", .ofBytes [97, 98, 99])]⟩ }
    let calls : List Call :=
      [.openMapping "a" "f" .readWrite, .cloneMapping "b" "a", .bindView "v" "a" 0 2,
        .attachChannel "c" "a" { read := true, write := true }, .closeMapping "a",
        .callChannel "c" (.act (.op (.read 1)))]
    let s := performAll { table := t } calls
    let l := Ledger.noteAll {} { table := t } calls
    {x | l.held x = some 0}.encard = 4 ∧ SameCounts s (s.unmapView "v") ∧
      (s.remapView "v" "b" 3 1).1 = .error (.outOfBounds 3 1 3) ∧
      SameCounts s (s.remapView "v" "b" 3 1).2 := by
  intro t calls s l
  have hfails : (s.remapView "v" "b" 3 1).1 = .error (.outOfBounds 3 1 3) := by
    unfold s calls t
    cbv
  have hcount : (s.mapping "b").holderCount s.table = 4 := by
    unfold s calls t
    cbv
  obtain ⟨-, hcounts, hunmap, -, -, hremap, -⟩ := holderCount_eq_encard (t := t) rfl calls
  have hfour := hcounts (s.mapping "b") 0 (by unfold s calls t; cbv)
  refine ⟨hfour.trans ?_, hunmap "v", hfails, hremap "v" "b" 3 1 _ hfails⟩
  rw [show performAll { table := t } calls = s from rfl, hcount]
  rfl

end ByteChannel.Workspace
