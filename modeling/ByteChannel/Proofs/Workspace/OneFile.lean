import Mathlib
import ByteChannel.Proofs.Mapped.Traffic
import ByteChannel.Proofs.Mapping.Seats
import ByteChannel.Proofs.Workspace.Ledger

/-!
# All windows show one file

Channels and views on mappings that share their changes work on the file itself. Whatever any of
them stored, every byte that one of them shows or hands out is the byte that was last stored at its
place by any of them, or the byte of the file from before. Nobody moves the window or the cursors of
another, and nobody depends on the handle that the mapping was taken from.
-/

namespace ByteChannel

theorem Mapped.Lays.grows {c d : Mapped} {o : Opening} {bs : Bytes} {i : Nat}
    (h : Mapped.Lays c d o bs) (hc : c.table.Covered) (ho : c.table.opened? i = some o) :
    let x := Deposit.into o c.putPos (o.passes bs)
    c.table.Grows x d.table ∧ Deposit.Fits x c.table.disk := by
  intro x
  have hfits := h.fits
  have hpasses := o.length_passes_le bs
  have hx : Deposit.Fits x c.table.disk := Deposit.fits_into fun file hname => by
    have := (hc.within i o ho).2 file hname
    omega
  refine ⟨.of_deposit (fun j => ?_) hx fun file => ?_, hx⟩
  · rw [h.like.opened, MapTable.opened?_lay]
  · rw [h.like.disk]
    refine Deposit.bytes_lay (fun name hname => ?_) file
    have := (hc.within i o ho).2 name hname
    omega

theorem Mapped.Live.on {c : Mapped} {i : Nat} {o : Opening} {m : OpenMode} (h : Live m c i o)
    {t : MapTable} (ho : t.opened? i = some o) : Live m { c with table := t } i o :=
  { h with opened := ho }

namespace Workspace

/-- What a call lays over a file. -/
def deposit [Paging] (s : Workspace) : Call → Option Deposit
  | .storeView name pos bs =>
    let v := s.view name
    let pos := min pos v.length
    (v.opening? s.table).bind fun o =>
      Deposit.into o (v.offset + pos) (o.passes (bs.take (v.length - pos)))
  | .callChannel name call =>
    let c := s.channel name
    (c.mapping.opening? s.table).bind fun o =>
      Deposit.into o c.putPos (o.passes (c.storedBy call))
  | _ => none

def deposits [Paging] (s : Workspace) : List Call → List Deposit
  | [] => []
  | call :: calls => (s.deposit call).toList ++ (s.perform call).2.deposits calls

/-- Handles are on openings, and windows lie inside them. -/
structure Sound (s : Workspace) : Prop where
  covered : s.table.Covered
  mappings : ∀ n i, (s.mapping n).holds = some i → ∃ o, s.table.opened? i = some o
  views : ∀ n, (s.view n).Sits s.table
  channels : ∀ n i, (s.channel n).mapping.holds = some i → ∃ m o, Mapped.Live m (s.channel n) i o

namespace Sound

variable {s s' : Workspace} {site : Site} {x : Option Deposit} {name : String}

/-- Everything outside of one site stays sound while the table grows. -/
theorem of_leaves (h : Sound s) (hs : Leaves site s s') (hg : s.table.Grows x s'.table)
    (hmapping : ∀ n i, site = .mapping n → (s'.mapping n).holds = some i →
      ∃ o, s'.table.opened? i = some o)
    (hview : ∀ n, site = .view n → (s'.view n).Sits s'.table)
    (hchannel : ∀ n i, site = .channel n → (s'.channel n).mapping.holds = some i →
      ∃ m o, Mapped.Live m (s'.channel n) i o) : Sound s' where
  covered := hg.covered h.covered
  mappings n i hi := by
    by_cases hn : site = .mapping n
    · exact hmapping n i hn hi
    · rw [hs.mapping n hn] at hi
      obtain ⟨o, ho⟩ := h.mappings n i hi
      exact ⟨o, hg.opened i o ho⟩
  views n := by
    by_cases hn : site = .view n
    · exact hview n hn
    · rw [hs.view n hn]
      exact (h.views n).grows hg
  channels n i hi := by
    by_cases hn : site = .channel n
    · exact hchannel n i hn hi
    · rw [hs.channel n hn] at hi ⊢
      obtain ⟨m, o, hlive⟩ := h.channels n i hi
      exact ⟨m, o, hlive.on (hg.opened i o hlive.opened)⟩

theorem setMapping (h : Sound s) {m : Mapping} {t : MapTable} (hg : s.table.Grows none t)
    (hm : ∀ i, m.holds = some i → ∃ o, t.opened? i = some o) :
    Sound (s.setMapping name m t) ∧ s.table.Grows none (s.setMapping name m t).table := by
  have hrelease : t.Grows none (s.setMapping name m t).table :=
    .of_like (MapTable.like_release t (s.mapping name).holds)
  have hg := hg.trans hrelease
  refine ⟨h.of_leaves (leaves_setMapping s name m t) hg ?_ nofun nofun, hg⟩
  rintro _ i ⟨⟩ hi
  rw [mapping_setMapping] at hi
  obtain ⟨o, ho⟩ := hm i hi
  exact ⟨o, hrelease.opened i o ho⟩

theorem takeMapping (h : Sound s) {r : Except ChannelError Mapping × MapTable}
    (hr : MapTable.Makes s.table r) (hg : s.table.Grows none r.2) :
    Sound (s.takeMapping name r).2 ∧ s.table.Grows none (s.takeMapping name r).2.table := by
  obtain ⟨e, rfl⟩ | ⟨t, rfl, -, hpasses⟩ := hr
  · exact ⟨h, .refl _⟩
  · refine h.setMapping hg fun i hi => ?_
    cases hi
    obtain ⟨o, ho⟩ := hpasses.opened
    exact ⟨o.plain, by rw [MapTable.opened?, ho]; rfl⟩

theorem clone (h : Sound s) {m : Mapping}
    (hm : ∀ i, m.holds = some i → ∃ o, s.table.opened? i = some o) :
    Sound (s.setMapping name (m.clone s.table).1 (m.clone s.table).2) ∧
      s.table.Grows none (s.setMapping name (m.clone s.table).1 (m.clone s.table).2).table := by
  have hg := MapTable.Grows.of_like (MapTable.like_clone m s.table)
  refine h.setMapping hg fun i hi => ?_
  obtain ⟨o, ho⟩ := hm i hi
  exact ⟨o, hg.opened i o ho⟩

/-- Nothing but the table changes, and no file does. -/
theorem table (h : Sound s) {t : MapTable} (hg : s.table.Grows none t) :
    Sound { s with table := t } :=
  h.of_leaves (leaves_table (.view "") s t) hg nofun (fun n _ => (h.views n).grows hg) nofun

theorem setView (h : Sound s) {v : View} {t : MapTable} (hg : s.table.Grows x t) (hv : v.Sits t) :
    Sound (s.setView name v t) := by
  refine h.of_leaves (leaves_setView s name v t) hg nofun ?_ nofun
  rintro _ ⟨⟩
  rw [view_setView]
  exact hv

theorem bindView (h : Sound s) (source : String) (offset len : Nat) :
    Sound (s.bindView name source offset len).2 ∧
      s.table.Grows none (s.bindView name source offset len).2.table := by
  have hg := MapTable.Grows.of_like (View.like_remap {} s.table (s.mapping source) offset len)
  have hv := (View.sits_unattached (v := {}) rfl s.table).remap (s.mapping source) offset len
  unfold Workspace.bindView View.bind
  generalize View.remap {} s.table (s.mapping source) offset len = r at hg hv
  obtain ⟨outcome, v, t⟩ := r
  cases outcome with
  | ok u =>
    have hrelease := MapTable.Grows.of_like (MapTable.like_release t (s.view name).attached)
    exact ⟨h.setView (hg.trans hrelease) (hv.grows hrelease), hg.trans hrelease⟩
  | error e =>
    have hrelease := MapTable.Grows.of_like (MapTable.like_release t v.attached)
    have hg := hg.trans hrelease
    exact ⟨h.table hg, hg⟩

theorem storeView [Paging] (h : Sound s) (pos : Nat) (bs : Bytes) :
    let x := s.deposit (.storeView name pos bs)
    Sound (s.storeView name pos bs).2 ∧ s.table.Grows x (s.storeView name pos bs).2.table ∧
      Deposit.Fits x s.table.disk := by
  intro x
  have hv := h.views name
  simp only [x, deposit, Workspace.storeView]
  generalize s.view name = v at hv
  cases ho : v.opening? s.table with
  | none =>
    have hrefused : v.store? s.table (min pos v.length) (bs.take (v.length - min pos v.length)) =
      none := by rw [View.store?, ho]
    rw [hrefused]
    exact ⟨h, .refl _, Deposit.fits_none _⟩
  | some o =>
    have hfits : min pos v.length + (bs.take (v.length - min pos v.length)).length ≤ v.length := by
      rw [List.length_take]
      omega
    obtain ⟨hsits, hgrows, hx⟩ := hv.store h.covered ho hfits
    cases hstore : v.store? s.table (min pos v.length) (bs.take (v.length - min pos v.length)) with
    | none =>
      rw [hstore] at hgrows
      exact ⟨h, hgrows, hx⟩
    | some r =>
      rw [hstore] at hsits hgrows
      exact ⟨h.setView hgrows hsits, hgrows, hx⟩

theorem setChannel (h : Sound s) {d : Mapped} (hg : s.table.Grows x d.table)
    (hd : ∀ i, d.mapping.holds = some i → ∃ m o, Mapped.Live m d i o) :
    Sound (s.setChannel name d) := by
  refine h.of_leaves (leaves_setChannel s name d) hg nofun nofun ?_
  rintro _ i ⟨⟩ hi
  rw [channel_setChannel] at hi ⊢
  exact hd i hi

theorem callChannel [Paging] (h : Sound s) (call : Mapped.Call) :
    let x := s.deposit (.callChannel name call)
    let d := ((s.channel name).perform call).2
    Sound (s.setChannel name d) ∧ s.table.Grows x d.table ∧ Deposit.Fits x s.table.disk := by
  intro x d
  have hmapping : d.mapping = (s.channel name).mapping :=
    (Mapped.rebinds_perform (s.channel name) call).mapping
  cases hi : (s.channel name).mapping.holds with
  | none =>
    have hclosed : (s.channel name).isOpen = false := by rw [Mapped.isOpen, Mapping.isOpen, hi]; rfl
    have hnone : x = none := by simp only [x, deposit, Mapping.opening?, hi, Option.bind_none]
    have hlike : s.table.Like d.table := Mapped.like_perform_closed hclosed call
    rw [hnone]
    refine ⟨h.setChannel (.of_like hlike) fun j hj => ?_, .of_like hlike, Deposit.fits_none _⟩
    rw [hmapping, hi] at hj
    cases hj
  | some i =>
    obtain ⟨m, o, hlive⟩ := h.channels name i hi
    obtain ⟨held, hheld, rfl⟩ := hlive.exists_opening
    have hword := (h.covered.within i _ hlive.opened).1
    have hx : x = Deposit.into held.plain (s.channel name).putPos
        (held.plain.passes ((s.channel name).storedBy call)) := by
      have hopen : (s.channel name).mapping.opening? s.table = some held := by
        rw [Mapping.opening?, hi]
        exact hheld
      simp only [x, deposit, hopen]
      rfl
    obtain ⟨hgrows, hfits⟩ := (hlive.lays_perform hword call).grows h.covered hlive.opened
    rw [← hx] at hgrows hfits
    refine ⟨h.setChannel hgrows fun j hj => ?_, hgrows, hfits⟩
    rw [hmapping, hi] at hj
    cases hj
    exact ⟨m, held.plain, hlive.perform hword call⟩

theorem starts (h : Sound s) (entry : Mapped.Entry) {m : Mapping} {made : Nat}
    (hstarts : (s.channel name).Starts m made ((s.channel name).enter entry))
    (hg : s.table.Grows none ((s.channel name).enter entry).2.table) :
    Sound (s.setChannel name ((s.channel name).enter entry).2) := by
  refine h.setChannel hg fun i hi => ?_
  obtain ⟨e, herror⟩ | ⟨d, hok, -, hmapping, -, -, hpasses⟩ := hstarts
  · rw [herror] at hi ⊢
    exact h.channels name i hi
  · rw [hok] at hi ⊢
    have hi : d.mapping.holds = some i := hi
    rw [← hmapping, hi] at hpasses
    obtain ⟨o, ho⟩ := hpasses.opened
    have hopen : d.mapping.opening? d.table = some o := by
      rw [Mapping.opening?, hi]
      exact ho
    obtain ⟨j, hlive⟩ := Mapped.enter_live hok hopen
    obtain rfl : j = i := Option.some.inj (hlive.holds.symm.trans hi)
    exact ⟨entry.mode, o.plain, hlive⟩

theorem stops (h : Sound s) (hs : Leaves (.channel name) s s') (hlike : s.table.Like s'.table)
    (hstopped : (s'.channel name).mapping.holds = none) :
    Sound s' ∧ s.table.Grows none s'.table := by
  refine ⟨h.of_leaves hs (.of_like hlike) nofun nofun ?_, .of_like hlike⟩
  rintro _ i ⟨⟩ hi
  rw [hstopped] at hi
  cases hi

/-- One call: what it lays over a file is all that changes there. -/
theorem perform [Paging] (h : Sound s) (call : Call) :
    let x := s.deposit call
    Sound (s.perform call).2 ∧ s.table.Grows x (s.perform call).2.table ∧
      Deposit.Fits x s.table.disk := by
  have hquiet {s' : Workspace} (hs : Sound s' ∧ s.table.Grows none s'.table) :
      Sound s' ∧ s.table.Grows none s'.table ∧ Deposit.Fits none s.table.disk :=
    ⟨hs.1, hs.2, Deposit.fits_none _⟩
  have hview {v : View} {t : MapTable} {name : String} (hlike : s.table.Like t) (hv : v.Sits t) :
      Sound (s.setView name v t) ∧ s.table.Grows none t ∧ Deposit.Fits none s.table.disk :=
    hquiet ⟨h.setView (.of_like hlike) hv, .of_like hlike⟩
  cases call with
  | openMapping name path mode =>
    exact hquiet
      (h.takeMapping (s.table.makes_openPath path mode) (s.table.grows_openPath path mode))
  | mapFile name path access mode size =>
    simp only [Workspace.perform, mapFile, Prod.map, id_eq]
    split
    · exact hquiet ⟨h, .refl _⟩
    · exact hquiet
        (h.takeMapping (s.table.makes_ofFile _ mode size) (s.table.grows_ofFile _ mode size))
  | cloneMapping name source => exact hquiet (h.clone (h.mappings source))
  | cloneChannel name source =>
    refine hquiet (h.clone fun i hi => ?_)
    obtain ⟨m, o, hlive⟩ := h.channels source i hi
    exact ⟨o, hlive.opened⟩
  | closeMapping name => exact hquiet (h.setMapping (m := {}) (.refl _) fun _ hi => by cases hi)
  | bindView name source offset len => exact hquiet (h.bindView source offset len)
  | remapView name source offset len =>
    exact hview (View.like_remap _ _ _ _ _) ((h.views name).remap _ offset len)
  | moveView name offset len =>
    exact hview (View.like_remap _ _ _ _ _) ((h.views name).remap _ offset len)
  | unmapView name => exact hview (.refl _) (h.views name).unmap
  | releaseView name =>
    exact hview (MapTable.like_release _ _) (View.Sits.release (s.view name) s.table)
  | storeView name pos bs => exact h.storeView pos bs
  | syncView name =>
    have hg := MapTable.Grows.of_like ((s.view name).like_sync s.table)
    exact hquiet ⟨h.table hg, hg⟩
  | openChannel name path mode keepPrivate =>
    have hg := (s.channel name).grows_openWide path mode keepPrivate
    have hstarts := (s.channel name).starts_openWide path mode keepPrivate
    exact hquiet ⟨h.starts (.wide path mode keepPrivate) hstarts hg, hg⟩
  | attachChannel name source mode =>
    have hg := MapTable.Grows.of_like ((s.channel name).like_attach (s.mapping source) mode)
    have hstarts := (s.channel name).starts_attach (s.mapping source) mode fun i hi => by
      obtain ⟨o, ho⟩ := h.mappings source i hi
      obtain ⟨held, hheld, -⟩ := Option.map_eq_some_iff.1 ho
      exact ⟨held, hheld⟩
    exact hquiet ⟨h.starts (.shared (s.mapping source) mode) hstarts hg, hg⟩
  | callChannel name call => exact h.callChannel call
  | closeChannel name =>
    apply hquiet
    apply h.stops (leaves_setChannel s name _) (s.channel name).like_close
    rw [channel_setChannel]
    exact (s.channel name).holds_close
  | dropChannel name =>
    apply hquiet
    apply h.stops (leaves_dropChannel s name) (s.channel name).like_discard
    rw [channel_dropChannel]

/-- A place of a file holds what was last deposited there. -/
theorem performAll [Paging] (h : Sound s) (calls : List Call) :
    Sound (s.performAll calls) ∧ ∀ file pos,
      ((s.performAll calls).table.disk.bytes file)[pos]? =
        (Deposit.lastAt file pos (s.deposits calls)).or (s.table.disk.bytes file)[pos]? := by
  induction calls generalizing s with
  | nil => exact ⟨h, fun _ _ => rfl⟩
  | cons call calls ih =>
    obtain ⟨hnext, hgrows, hfits⟩ := h.perform call
    obtain ⟨hend, hbytes⟩ := ih hnext
    refine ⟨hend, fun file pos => (hbytes file pos).trans ?_⟩
    rw [deposits, Deposit.lastAt_toList_append, Option.or_assoc, hgrows.bytes,
      Deposit.getElem?_onto hfits]

theorem opened_performAll [Paging] (h : Sound s) {i : Nat} {o : Opening}
    (ho : s.table.opened? i = some o) (calls : List Call) :
    (s.performAll calls).table.opened? i = some o := by
  induction calls generalizing s with
  | nil => exact ho
  | cons call calls ih =>
    obtain ⟨hnext, hgrows, -⟩ := h.perform call
    exact ih hnext (hgrows.opened i o ho)

end Sound

/-- A bound on the files that are there bounds every file, since a missing one holds nothing. -/
theorem length_bytes_lt {d : Disk} {n : Nat} (hn : 0 < n)
    (hfiles : d.files.all fun f => f.2.length < n) (file : String) :
    (d.bytes file).length < n := by
  rw [Disk.bytes, Disk.store, Disk.store?]
  cases hfound : d.files.lookup file with
  | none =>
    change (Store.ofBytes []).bytes.length < n
    rwa [Store.bytes_ofBytes]
  | some s =>
    obtain ⟨front, back, hsplit, -⟩ := List.lookup_eq_some_iff.1 hfound
    have hmem : (file, s) ∈ d.files := by
      rw [hsplit]
      exact List.mem_append_right _ List.mem_cons_self
    rw [Option.getD_some, Store.length_bytes]
    exact of_decide_eq_true (List.all_eq_true.1 hfiles _ hmem)

theorem sound_start {t : MapTable} (ht : t.openings = [])
    (hshort : ∀ file, (t.disk.bytes file).length < maxWord) : Sound { table := t } where
  covered := by
    refine ⟨hshort, fun i o ho => ?_⟩
    rw [MapTable.opened?, MapTable.opening?, ht] at ho
    cases ho
  mappings n i hi := by cases hi
  views n := View.sits_unattached rfl _
  channels n i hi := by cases hi

/-! ## What the participants see -/

/-- A view that shares its changes shows its place in the bytes of the file, and moves to any other
place of an opening that is still held. -/
structure ShowsFile [Paging] (t : MapTable) (v : View) (o : Opening) (bytes : Bytes) : Prop where
  held : 0 < o.holders
  inside : v.offset + v.length ≤ bytes.length
  range_eq : ∀ start stop,
    v.range t start stop = slice bytes (v.offset + start) (v.offset + min stop v.length)
  moves : t.GrantsNext o → ∀ offset len, offset < o.length → (v.moveTo t offset len).1 = .ok ()

/-- A channel that shares its changes hands out the bytes of the file at its get cursor. Where
windows are granted it reads and writes to the end of an opening that is still held. -/
structure ServesFile [Paging] (c : Mapped) (o : Opening) (bytes : Bytes) : Prop where
  held : 0 < o.holders
  getData_eq : c.getData = slice bytes c.getPos (c.getPos + c.getSize)
  received : ∀ call, StandsAt bytes c.getPos (c.perform call).1.received
  reads : c.table.Grants o → c.mode.isReadable = true →
    ∀ n, (c.read n).1.length = min n (o.length - c.getPos)
  writes : c.table.Grants o → c.mode.isWritable = true →
    ∀ src, (c.write src).1 = min src.length (o.length - c.putPos)

variable {s : Workspace} {l : Ledger} {name file : String} {o : Opening}

theorem Kept.holders_pos (h : Kept l s) {x : Holder}
    (ho : (s.holding x).bind s.table.opening? = some o) : 0 < o.holders := by
  obtain ⟨i, hi, hheld⟩ := Option.bind_eq_some_iff.1 ho
  have hpos := h.counts.pos hi
  rw [MapTable.holders, hheld] at hpos
  exact hpos

theorem Sound.showsFile [Paging] (h : Sound s) (k : Kept l s)
    (ho : (s.view name).opening? s.table = some o) (hshared : o.mode = .readWrite)
    (hfile : o.name = some file) :
    ShowsFile s.table (s.view name) o (s.table.disk.bytes file) := by
  obtain ⟨i, hi, hopened, hin, -⟩ := (h.views name).place ho
  refine ⟨k.holders_pos (x := .view name) ho, ?_, fun start stop => ?_,
    fun hg offset len hoff => ?_⟩
  · exact Nat.le_trans hin ((h.covered.within i _ hopened).2 file hfile)
  · have hrange := (h.views name).range_eq ho (by rw [hshared]; decide) start stop
    rw [MapTable.file, hfile] at hrange
    exact hrange
  · have hg : s.table.GrantsNext o.plain := ⟨hg.allows, hg.accepts⟩
    obtain ⟨r, v', t', hremap, -, -, ⟨rfl, -⟩ | ⟨-, -, hno⟩⟩ :=
      View.remap_spec (v := s.view name) (m := ⟨(s.view name).attached⟩) hi hopened hoff len
    · rw [View.moveTo, hremap]
    · exact absurd hg hno

theorem Sound.servesFile [Paging] (h : Sound s) (k : Kept l s)
    (ho : (s.channel name).mapping.opening? s.table = some o) (hshared : o.mode = .readWrite)
    (hfile : o.name = some file) :
    ServesFile (s.channel name) o (s.table.disk.bytes file) := by
  obtain ⟨i, hi, hheld⟩ := Option.bind_eq_some_iff.1 ho
  obtain ⟨m, o', hlive⟩ := h.channels name i hi
  obtain rfl : o.plain = o' := by
    have hopened := hlive.opened
    rw [MapTable.opened?, show (s.channel name).table.opening? i = some o from hheld] at hopened
    exact Option.some.inj hopened
  have hmode : o.plain.mode ≠ .copyOnWrite := by
    rw [show o.plain.mode = .readWrite from hshared]
    decide
  have hlen : o.length ≤ (s.table.disk.bytes file).length :=
    (h.covered.within i _ hlive.opened).2 file hfile
  have hbytes : ((s.channel name).table.file o.plain).bytes = s.table.disk.bytes file := by
    rw [MapTable.file, show o.plain.name = some file from hfile]
    rfl
  have hgrants (hg : (s.channel name).table.Grants o) : (s.channel name).table.Grants o.plain :=
    ⟨hg.allows, hg.never_refuses⟩
  refine ⟨k.holders_pos (x := .channel name) ho, ?_, fun call => ?_, fun hg hr n => ?_,
    fun hg hw src => ?_⟩
  · rw [hlive.getData_eq (hlive.depicts_file hmode), hbytes]
  · rw [← hbytes]
    exact hlive.standsAt_received hmode (hbytes ▸ hlen) call
  · obtain ⟨k, d, hread, -, -, -, hall⟩ := hlive.toFramed.read hr hmode n
    obtain ⟨rfl, -⟩ := hall (hgrants hg).next
    have hplain : o.plain.length = o.length := rfl
    rw [hread, hbytes, length_slice, hplain]
    omega
  · obtain ⟨k, d, hwrite, -, -, -, hall⟩ := hlive.toFramed.write hw hshared src
    obtain ⟨rfl, -⟩ := hall (hgrants hg)
    rw [hwrite]
    rfl

/-- After any calls there is one file behind all windows that share their changes: every place of it
holds the byte that was last stored there, or the one from before, and this is what each view shows
and each channel hands out, whichever handles are closed. A call moves nothing but what it is made
on. -/
theorem participants_see_one_file [Paging] {t : MapTable} (ht : t.openings = [])
    (hshort : ∀ file, (t.disk.bytes file).length < maxWord) (calls : List Call) :
    let start : Workspace := { table := t }
    let s := start.performAll calls
    (∀ file pos, (s.table.disk.bytes file)[pos]? =
        (Deposit.lastAt file pos (start.deposits calls)).or (t.disk.bytes file)[pos]?) ∧
      (∀ name o file, (s.view name).opening? s.table = some o → o.mode = .readWrite →
        o.name = some file → ShowsFile s.table (s.view name) o (s.table.disk.bytes file)) ∧
      (∀ name o file, (s.channel name).mapping.opening? s.table = some o → o.mode = .readWrite →
        o.name = some file → ServesFile (s.channel name) o (s.table.disk.bytes file)) ∧
      (∀ handle, s.table.Like (s.closeMapping handle).table) ∧
      ∀ call, Leaves call.site s (s.perform call).2 := by
  intro start s
  have k : Kept (Ledger.noteAll {} start calls) s := (kept_start ht).performAll calls
  obtain ⟨h, hbytes⟩ := (sound_start ht hshort).performAll calls
  exact ⟨hbytes, fun _ _ _ => h.showsFile k, fun _ _ _ => h.servesFile k,
    fun handle => MapTable.like_release s.table (s.mapping handle).holds, s.leaves_perform⟩

/-- With all handles closed a view and a channel see what each of them has stored. -/
theorem participants_see_one_file_unhandled :
    let t : MapTable := { disk := ⟨[("f", .ofBytes [97, 98, 99, 100])]⟩ }
    let calls : List Call :=
      [.openMapping "a" "f" .readWrite, .cloneMapping "b" "a", .bindView "v" "a" 1 2,
        .attachChannel "c" "b" { read := true, write := true }, .closeMapping "a",
        .closeMapping "b", .storeView "v" 1 [88], .callChannel "c" (.act (.op (.write [89])))]
    let s := performAll { table := t } calls
    (s.table.disk.bytes "f")[2]? = some 88 ∧ (s.view "v").bytes s.table = [98, 88] ∧
      ((s.channel "c").read 3).1.length = 3 ∧ (s.channel "c").getPos = 1 ∧
      StandsAt (s.table.disk.bytes "f") 1 ((s.channel "c").read 3).1 := by
  intro t calls s
  let o : Opening :=
    { name := some "f"
      path := some "f"
      length := 4
      mode := .readWrite
      readable := true
      writable := true
      holders := 3 }
  have hshort (file : String) : (t.disk.bytes file).length < maxWord := by
    by_cases hf : file = "f"
    · have hbytes : t.disk.bytes "f" = [97, 98, 99, 100] := by
        unfold t
        cbv
      rw [hf, hbytes]
      decide
    · have hnone : t.disk.bytes file = [] := by
        simp only [t, Disk.bytes, Disk.store, Disk.store?, List.lookup_cons, beq_false_of_ne hf]
        cbv
      rw [hnone]
      decide
  have hview : (s.view "v").opening? s.table = some o := by
    unfold s calls t o
    cbv
  have hchannel : (s.channel "c").mapping.opening? s.table = some o := by
    unfold s calls t o
    cbv
  have hpos : (s.channel "c").getPos = 1 := by
    unfold s calls t
    cbv
  have hgrants : (s.channel "c").table.Grants o := by
    refine ⟨rfl, fun _ => ?_⟩
    unfold s calls t
    cbv
  have hreads : (s.channel "c").mode.isReadable = true := by
    unfold s calls t
    cbv
  obtain ⟨hbytes, hviews, hchannels, -⟩ := participants_see_one_file (t := t) rfl hshort calls
  have hshows := hviews "v" o "f" hview rfl rfl
  have hserves := hchannels "c" o "f" hchannel rfl rfl
  have hreceived := hserves.received (.act (.op (.read 3)))
  rw [show ({ table := t } : Workspace).performAll calls = s from rfl] at hserves hreceived
  rw [hpos] at hreceived
  refine ⟨(hbytes "f" 2).trans ?_, (hshows.range_eq 0 _).trans ?_, ?_, hpos, hreceived⟩
  · unfold calls t
    cbv
  · unfold calls t
    cbv
  · rw [hserves.reads hgrants hreads, hpos]
    rfl

end Workspace

end ByteChannel
