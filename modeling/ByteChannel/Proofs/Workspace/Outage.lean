import Mathlib
import ByteChannel.Proofs.Mapped.Refused
import ByteChannel.Proofs.Workspace.OneFile

/-!
# Channels without a window

What the window of a channel shows is kept through the calls of all others, even where it is private
and they store into its file. So a channel that is refused a window has lost no byte and no
position: its two cursors wait where its side stood, whatever the others do, until a window is
granted again.
-/

namespace ByteChannel

theorem MapTable.Grows.length_file {t t' : MapTable} {x : Option Deposit} (h : t.Grows x t')
    (hx : Deposit.Fits x t.disk) (o : Opening) :
    (t'.file o).bytes.length = (t.file o).bytes.length := by
  cases ho : o.name with
  | none =>
    simp only [MapTable.file, ho]
    rfl
  | some file =>
    have hbytes := congrArg List.length (h.bytes file)
    rw [Deposit.length_onto hx] at hbytes
    simp only [MapTable.file, ho]
    exact hbytes

namespace Mapped

variable [Paging] {c : Mapped} {i : Nat} {o : Opening} {m : OpenMode} {pos : Nat}

/-- An open channel shows something in its window, or is over what no window can show. -/
def Serves (m : OpenMode) (c : Mapped) (i : Nat) (o : Opening) : Prop :=
  (∃ image, Showing m c i o image) ∨ Live m c i o ∧ o.name = none ∧ ∃ pos, Stalled c pos

theorem Showing.on {image : Bytes} (h : Showing m c i o image) {t : MapTable}
    (ho : t.opened? i = some o)
    (hlen : (t.file o).bytes.length = (c.table.file o).bytes.length) :
    ∃ image', Showing m { c with table := t } i o image' := by
  have hlive : Live m { c with table := t } i o := h.toLive.on ho
  have hcovered : o.length ≤ (t.file o).bytes.length := hlen ▸ h.covered
  have hbare (hb : c.Bare) : Showing m { c with table := t } i o (t.file o).bytes :=
    ⟨hlive, rfl, hcovered, depicts_of_bare (c := { c with table := t }) hb, fun _ => rfl⟩
  by_cases hm : o.mode = .copyOnWrite
  · cases hw : c.view.window with
    | none => exact ⟨_, hbare fun w hsome => by rw [hw] at hsome; cases hsome⟩
    | some w =>
      obtain ⟨image', hcopied⟩ := (h.depicts w hw).over hlen
      refine ⟨image', hlive, hcopied.length_eq, hcovered, fun w' hw' => ?_,
        fun hshared => absurd hm hshared⟩
      obtain rfl : w = w' := Option.some.inj (hw.symm.trans hw')
      exact hcopied
  · exact ⟨_, hbare fun w hw => h.bare w hw hm⟩

namespace Serves

theorem live (h : Serves m c i o) : Live m c i o := by
  obtain ⟨image, hshows⟩ | ⟨hlive, -⟩ := h
  · exact hshows.toLive
  · exact hlive

theorem length_getData (h : Serves m c i o) : c.getData.length = c.getSize := by
  obtain ⟨image, hshows⟩ | ⟨-, -, pos, hs⟩ := h
  · exact hshows.length_getData
  · rw [hs.getData_eq, getSize, hs.available_get]
    rfl

theorem on (h : Serves m c i o) {t : MapTable} (ho : t.opened? i = some o)
    (hlen : (t.file o).bytes.length = (c.table.file o).bytes.length) :
    Serves m { c with table := t } i o := by
  obtain ⟨image, hshows⟩ | ⟨hlive, hname, pos, hs⟩ := h
  · exact .inl (hshows.on ho hlen)
  · exact .inr ⟨hlive.on ho, hname, pos, hs.on t⟩

theorem perform (h : Serves m c i o) (hword : o.length ≤ maxWord) (call : Call) :
    Serves m (c.perform call).2 i o := by
  obtain ⟨image, hshows⟩ | ⟨hlive, hname, pos, hs⟩ := h
  · exact .inl ⟨_, hshows.perform hword call⟩
  · refine .inr ⟨hlive.perform hword call, hname, ?_⟩
    have hno : ¬c.table.GrantsNext o := fun hg => by
      obtain ⟨name, hsome⟩ := hg.name
      rw [hname] at hsome
      cases hsome
    by_cases hstays : call.stays = true
    · exact ⟨pos, hs.perform hlive.toFramed hno hstays⟩
    · cases call with
      | act a =>
        cases a with
        | op op =>
          cases op with
          | seek origin side => exact hs.seek origin side
          | _ => exact absurd rfl hstays
        | _ => exact absurd rfl hstays
      | trySeek origin => exact hs.seek origin .both
      | _ => exact absurd rfl hstays

/-- Once a window is granted the channel goes on where it stalled. -/
theorem goesOnAt (h : Serves m c i o) (hs : Stalled c pos) (hg : c.table.GrantsNext o) :
    GoesOnAt c o pos := by
  obtain ⟨image, hshows⟩ | ⟨-, hname, -⟩ := h
  · exact hshows.goesOnAt hs hg
  · obtain ⟨name, hsome⟩ := hg.name
    rw [hname] at hsome
    cases hsome

end Serves

theorem enter_serves {c' : Mapped} {entry : Entry} (h : c.enter entry = (.ok (), c'))
    (hi : c'.mapping.holds = some i) (ho : c'.table.opening? i = some o)
    (hcovered : c'.table.Covered) : Serves entry.mode c' i o.plain := by
  have hopen : c'.mapping.opening? c'.table = some o := by
    rw [Mapping.opening?, hi]
    exact ho
  have hopened : c'.table.opened? i = some o.plain := by rw [MapTable.opened?, ho]; rfl
  obtain ⟨hword, hlen⟩ := hcovered.within i _ hopened
  obtain ⟨j, hlive⟩ := enter_live h hopen
  obtain rfl : j = i := Option.some.inj (hlive.holds.symm.trans hi)
  cases hname : o.name with
  | none =>
    obtain ⟨b, m, rfl, -⟩ := eq_start_of_enter h
    exact .inr ⟨hlive, hname, 0, stalled_dropWindow rfl⟩
  | some file =>
    have hfile : o.length ≤ (c'.table.file o).bytes.length := by
      rw [MapTable.file, hname]
      exact hlen file hname
    exact .inl ⟨_, hlive, rfl, hfile, depicts_of_bare (enter_bare h), fun _ => rfl⟩

end Mapped

namespace Workspace

section

variable [Paging] {s s' : Workspace} {name : String} {o : Opening} {pos : Nat}

/-- Every open channel shows something in its window, or is over what no window can show. -/
def Serving (s : Workspace) : Prop :=
  ∀ n i, (s.channel n).mapping.holds = some i → ∃ m o, Mapped.Serves m (s.channel n) i o

namespace Serving

theorem starts (k : Serving s) (entry : Mapped.Entry) {m : Mapping} {made i : Nat}
    (hstarts : (s.channel name).Starts m made ((s.channel name).enter entry))
    (hcovered : ((s.channel name).enter entry).2.table.Covered)
    (hi : ((s.channel name).enter entry).2.mapping.holds = some i) :
    ∃ m o, Mapped.Serves m ((s.channel name).enter entry).2 i o := by
  obtain ⟨e, herror⟩ | ⟨d, hok, -, hmapping, -, -, hpasses⟩ := hstarts
  · rw [herror] at hi ⊢
    exact k name i hi
  · rw [hok] at hi hcovered ⊢
    have hi : d.mapping.holds = some i := hi
    rw [← hmapping, hi] at hpasses
    obtain ⟨o, ho⟩ := hpasses.opened
    exact ⟨_, _, Mapped.enter_serves hok hi ho hcovered⟩

theorem perform (k : Serving s) (h : Sound s) (call : Call) : Serving (s.perform call).2 := by
  obtain ⟨hnext, hgrows, hfits⟩ := h.perform call
  have hleaves := s.leaves_perform call
  intro n i hi
  by_cases hsite : call.site = .channel n
  · have hcovered := hnext.covered
    cases call with
    | openChannel name path mode keepPrivate =>
      cases hsite
      simp only [Workspace.perform, channel_setChannel] at hi ⊢
      exact k.starts (.wide path mode keepPrivate)
        ((s.channel n).starts_openWide path mode keepPrivate) hcovered hi
    | attachChannel name source mode =>
      cases hsite
      simp only [Workspace.perform, attachChannel, Prod.map, id_eq, channel_setChannel] at hi ⊢
      refine k.starts (.shared (s.mapping source) mode)
        ((s.channel n).starts_attach (s.mapping source) mode fun j hj => ?_) hcovered hi
      obtain ⟨o, ho⟩ := h.mappings source j hj
      obtain ⟨held, hheld, -⟩ := Option.map_eq_some_iff.1 ho
      exact ⟨held, hheld⟩
    | callChannel name call =>
      cases hsite
      simp only [Workspace.perform, channel_setChannel] at hi ⊢
      rw [(Mapped.rebinds_perform (s.channel n) call).mapping] at hi
      obtain ⟨m, o, hserves⟩ := k n i hi
      have hword := (h.covered.within i o hserves.live.opened).1
      exact ⟨m, o, hserves.perform hword call⟩
    | closeChannel name =>
      cases hsite
      simp only [Workspace.perform, channel_setChannel, (s.channel n).holds_close] at hi
      cases hi
    | dropChannel name =>
      cases hsite
      simp only [Workspace.perform, channel_dropChannel] at hi
      cases hi
    | _ => cases hsite
  · rw [hleaves.channel n hsite] at hi ⊢
    obtain ⟨m, o, hserves⟩ := k n i hi
    exact ⟨m, o, hserves.on (hgrows.opened i o hserves.live.opened) (hgrows.length_file hfits o)⟩

theorem performAll (k : Serving s) (h : Sound s) (calls : List Call) :
    Serving (s.performAll calls) := by
  induction calls generalizing s with
  | nil => exact k
  | cons call calls ih => exact ih (k.perform h call) (h.perform call).1

end Serving

theorem serving_start (t : MapTable) : Serving { table := t } := by
  intro n i hi
  cases hi

/-! ## Outages -/

/-- While these calls are made in turn the channel of a name is called for transfers only, and each
time no window on its opening is to be had. -/
def Outage (name : String) (o : Opening) : Workspace → List Call → Prop
  | _, [] => True
  | s, call :: calls =>
    (call.site = .channel name →
      (∃ c, call = .callChannel name c ∧ c.stays = true) ∧ ¬s.table.GrantsNext o) ∧
      Outage name o (s.perform call).2 calls

theorem Serving.stalled_perform (k : Serving s) {i : Nat}
    (hi : (s.channel name).mapping.holds = some i) (ho : s.table.opened? i = some o.plain)
    (hs : Mapped.Stalled (s.channel name) pos) {call : Call}
    (hout : call.site = .channel name →
      (∃ c, call = .callChannel name c ∧ c.stays = true) ∧ ¬s.table.GrantsNext o) :
    Mapped.Stalled ((s.perform call).2.channel name) pos ∧
      ((s.perform call).2.channel name).mapping = (s.channel name).mapping := by
  by_cases hsite : call.site = .channel name
  · obtain ⟨⟨c, rfl, hstays⟩, hno⟩ := hout hsite
    obtain ⟨m, o', hserves⟩ := k name i hi
    obtain rfl : o.plain = o' := Option.some.inj (ho.symm.trans hserves.live.opened)
    simp only [Workspace.perform, channel_setChannel]
    exact ⟨hs.perform hserves.live.toFramed (fun hg => hno ⟨hg.allows, hg.accepts⟩) hstays,
      (Mapped.rebinds_perform (s.channel name) c).mapping⟩
  · rw [(s.leaves_perform call).channel name hsite]
    exact ⟨hs.on _, rfl⟩

/-- So it is by all calls of an outage. -/
theorem Serving.stalled_performAll (k : Serving s) (h : Sound s) {i : Nat}
    (hi : (s.channel name).mapping.holds = some i) (ho : s.table.opened? i = some o.plain)
    (hs : Mapped.Stalled (s.channel name) pos) {calls : List Call}
    (hout : Outage name o s calls) :
    Mapped.Stalled ((s.performAll calls).channel name) pos ∧
      ((s.performAll calls).channel name).mapping.holds = some i := by
  induction calls generalizing s with
  | nil => exact ⟨hs, hi⟩
  | cons call calls ih =>
    obtain ⟨hstep, hlater⟩ := hout
    obtain ⟨hnext, hgrows, -⟩ := h.perform call
    obtain ⟨hs', hmapping⟩ := k.stalled_perform hi ho hs hstep
    exact ih (k.perform h call) hnext (hmapping ▸ hi) (hgrows.opened i _ ho) hs' hlater

/-- An act on any channel that is refused its window changes no file and answers only what it moved.
The failure is answered or latched behind an earlier one. Both cursors are empty at the position
where its side stood, behind the bytes that a read handed out. They stay there through an outage,
and where a window is granted at last the channel goes on from there. -/
theorem refused_window_loses_no_position {t : MapTable} (ht : t.openings = [])
    (hshort : ∀ file, (t.disk.bytes file).length < maxWord) (calls : List Call) (name : String)
    (a : Mapped.Act) (e : IoError) (o : Opening) :
    let s := performAll { table := t } calls
    let c := s.channel name
    let s' := (s.perform (.callChannel name (.act a))).2
    let d := s'.channel name
    c.mapping.opening? s.table = some o → Mapped.Refused c d o e →
      ∃ x, c.halt? e a = some x ∧ (s.perform (.callChannel name (.act a))).1 = .called x.answer ∧
        d.error = (c.error.or (failure? (c.view.sync s.table).1)).or x.latched ∧
        s'.table.disk = s.table.disk ∧ Mapped.Stalled d x.pos ∧
        ∀ later, Outage name o s' later →
          let s'' := s'.performAll later
          Mapped.Stalled (s''.channel name) x.pos ∧
            (s''.table.GrantsNext o → Mapped.GoesOnAt (s''.channel name) o x.pos) := by
  intro s c s' d ho hr
  have h : Sound s := ((sound_start ht hshort).performAll calls).1
  have k : Serving s := (serving_start t).performAll (sound_start ht hshort) calls
  obtain ⟨i, hi, hheld⟩ := Option.bind_eq_some_iff.1 ho
  have hopened : s.table.opened? i = some o.plain := by rw [MapTable.opened?, hheld]; rfl
  obtain ⟨m, o', hserves⟩ := k name i hi
  obtain rfl : o.plain = o' := Option.some.inj (hopened.symm.trans hserves.live.opened)
  have hd : d = (c.perform (.act a)).2 := channel_setChannel s name _
  have hr' : Mapped.Refused c (c.perform (.act a)).2 o.plain e := hd ▸ ⟨hr.asked, hr.refused⟩
  obtain ⟨x, hx, hperform⟩ := hserves.live.halts hserves.length_getData hr'
  have hdx : d = (c.haltAt o.plain x.pos).latch x.latched := by rw [hd, hperform]
  have hlike : s.table.Like d.table := by
    rw [hdx]
    exact (View.like_sync c.view c.table).trans (MapTable.like_askWindow _ o.plain)
  have hs : Mapped.Stalled d x.pos := by
    rw [hdx]
    exact (Mapped.stalled_haltAt c o.plain x.pos).latch _
  refine ⟨x, hx, ?_, ?_, hlike.disk, hs, fun later hout => ?_⟩
  · exact congrArg (Answer.called ·.1) hperform
  · rw [hdx]
    rfl
  · obtain ⟨h', hgrows, -⟩ := h.perform (.callChannel name (.act a))
    have k' : Serving s' := k.perform h _
    have hi' : (s'.channel name).mapping.holds = some i := by
      rw [show s'.channel name = _ from hdx]
      exact hi
    have hopened' := hgrows.opened i _ hopened
    obtain ⟨hs'', hi''⟩ := k'.stalled_performAll h' hi' hopened' hs hout
    refine ⟨hs'', fun hg => ?_⟩
    obtain ⟨m'', o'', hserves''⟩ := k'.performAll h' later name i hi''
    obtain rfl : o.plain = o'' :=
      Option.some.inj ((h'.opened_performAll hopened' later).symm.trans hserves''.live.opened)
    exact (hserves''.goesOnAt hs'' ⟨hg.allows, hg.accepts⟩).of_plain

end

/-- The second window is refused, in the middle of the first one, and so is the third. A view stores
in the file meanwhile. -/
theorem refused_window_loses_no_position_twice :
    let t : MapTable :=
      { disk := ⟨[("f", .ofBytes [97, 98, 99])]⟩, refusesWindow := fun n => n == 2 || n == 3 }
    let calls : List Call :=
      [.openMapping "m" "f" .readWrite, .bindView "v" "m" 0 0,
        .attachChannel "c" "m" { read := true, write := true },
        .callChannel "c" (.act (.op .readByte))]
    let s := performAll { table := t } calls
    let s' := (s.perform (.callChannel "c" (.act (.op (.reserveGet 3))))).2
    let s'' := s'.performAll [.callChannel "c" (.act .peek), .storeView "v" 1 [88]]
    (s'.channel "c").getPos = 1 ∧ (s'.channel "c").error = none ∧
      (s''.channel "c").getPos = 1 ∧ (s''.channel "c").error = some (.io .noMemory) ∧
      ∃ d, (s''.channel "c").read 5 = ([88, 99], d) ∧ d.getPos = 3 := by
  intro t calls s s' s''
  let o : Opening :=
    { name := some "f"
      path := some "f"
      length := 3
      mode := .readWrite
      readable := true
      writable := true
      holders := 4 }
  have hshort : ∀ file, (t.disk.bytes file).length < maxWord := by
    apply length_bytes_lt (by decide)
    unfold t
    cbv
  have hopen : (s.channel "c").mapping.opening? s.table = some o := by
    unfold s calls t o
    cbv
  have hrefused : Mapped.Refused (s.channel "c") (s'.channel "c") o .noMemory := by
    constructor
    · unfold s' s calls t
      cbv
    · unfold s calls t o
      cbv
  obtain ⟨x, hx, -, herror, -, hs', hlater⟩ := refused_window_loses_no_position (t := t) rfl hshort
    calls "c" (.op (.reserveGet 3)) .noMemory o hopen hrefused
  have hpos : x.pos = 1 := by
    rw [← Option.some.inj hx]
    change (s.channel "c").getPos = 1
    unfold s calls t
    cbv
  have hrefuses : s'.table.refusesWindow s'.table.windowsAsked = true := by
    unfold s' s calls t
    cbv
  have hout : Outage "c" o s' [.callChannel "c" (.act .peek), .storeView "v" 1 [88]] :=
    ⟨fun _ => ⟨⟨_, rfl, rfl⟩, fun hg => Bool.false_ne_true (hg.accepts.symm.trans hrefuses)⟩,
      fun hsite => absurd hsite (by decide), trivial⟩
  obtain ⟨hs'', hgoesOn⟩ := hlater _ hout
  have hgrants : s''.table.GrantsNext o := by
    refine ⟨rfl, ?_⟩
    unfold s'' s' s calls t
    cbv
  have hreads : (s''.channel "c").mode.isReadable = true := by
    unfold s'' s' s calls t
    cbv
  obtain ⟨d, hread, hd⟩ := (hgoesOn hgrants).read hreads 5
  rw [hpos] at hread hd
  refine ⟨hs'.getPos_eq.trans hpos, ?_, hs''.getPos_eq.trans hpos, ?_, d, hread.trans ?_, hd⟩
  · unfold s' s calls t
    cbv
  · unfold s'' s' s calls t
    cbv
  · refine congrArg (Prod.mk · d) ?_
    change slice ((s''.channel "c").table.file o).bytes 1 (1 + min 5 (3 - 1)) = [88, 99]
    unfold s'' s' s calls t o
    cbv

end Workspace

end ByteChannel
