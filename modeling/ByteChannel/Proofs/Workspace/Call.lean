import ByteChannel.Proofs.Mapped.Perform
import ByteChannel.Workspace

/-!
# Calls on a workspace as data

Everything that can be asked of the mappings, the views and the channels of a workspace, under their
names, with the answers. A call changes what stands under its own name and the table that all share.
Nothing else moves: the other handles, views and channels stay as they are.
-/

namespace ByteChannel.Workspace

/-- A handle or a view that is dropped is closed or released. -/
inductive Call
  | openMapping (name path : String) (mode : MapMode)
  | mapFile (name path : String) (access : OpenRequest) (mode : MapMode) (size : Option Nat)
  | cloneMapping (name source : String)
  /-- One more handle on the mapping of a channel. -/
  | cloneChannel (name source : String)
  | closeMapping (name : String)
  | bindView (name source : String) (offset len : Nat)
  | remapView (name source : String) (offset len : Nat)
  | moveView (name : String) (offset len : Nat)
  | unmapView (name : String)
  | releaseView (name : String)
  | storeView (name : String) (pos : Nat) (bs : Bytes)
  | syncView (name : String)
  /-- The path may be one that was not readable as such. -/
  | openChannel (name : String) (path : Except ChannelError String) (mode : OpenMode)
      (keepPrivate : Bool)
  | attachChannel (name source : String) (mode : OpenMode)
  | callChannel (name : String) (call : Mapped.Call)
  | closeChannel (name : String)
  | dropChannel (name : String)

inductive Answer
  | outcome (r : Except ChannelError Unit)
  | done
  | stored (k : Option Nat)
  | called (a : Mapped.Answer)
  | closed (wasOpen : Bool)

def perform [Paging] (s : Workspace) : Call → Answer × Workspace
  | .openMapping name path mode => (s.openMapping name path mode).map .outcome id
  | .mapFile name path access mode size => (s.mapFile name path access mode size).map .outcome id
  | .cloneMapping name source => (.done, s.cloneMapping name source)
  | .cloneChannel name source =>
    let r := (s.channel source).mapping.clone s.table
    (.done, s.setMapping name r.1 r.2)
  | .closeMapping name => (.done, s.closeMapping name)
  | .bindView name source offset len => (s.bindView name source offset len).map .outcome id
  | .remapView name source offset len => (s.remapView name source offset len).map .outcome id
  | .moveView name offset len => (s.moveView name offset len).map .outcome id
  | .unmapView name => (.done, s.unmapView name)
  | .releaseView name => (.done, s.releaseView name)
  | .storeView name pos bs => (s.storeView name pos bs).map .stored id
  | .syncView name => (s.syncView name).map .outcome id
  | .openChannel name path mode keepPrivate =>
    let r := (s.channel name).openWide path mode keepPrivate
    (.outcome r.1, s.setChannel name r.2)
  | .attachChannel name source mode => (s.attachChannel name source mode).map .outcome id
  | .callChannel name call =>
    let r := (s.channel name).perform call
    (.called r.1, s.setChannel name r.2)
  | .closeChannel name =>
    let r := (s.channel name).close
    (.closed r.1, s.setChannel name r.2)
  | .dropChannel name => (.done, s.dropChannel name)

/-- One call after the other. -/
def performAll [Paging] (s : Workspace) : List Call → Workspace
  | [] => s
  | call :: calls => (s.perform call).2.performAll calls

/-! ## What a call leaves alone -/

/-- Where a call works. -/
inductive Site
  | mapping (name : String)
  | view (name : String)
  | channel (name : String)
  deriving DecidableEq, Repr

def Site.name : Site → String
  | .mapping name | .view name | .channel name => name

def Call.site : Call → Site
  | .openMapping name _ _ | .mapFile name _ _ _ _ | .cloneMapping name _ | .cloneChannel name _
  | .closeMapping name => .mapping name
  | .bindView name _ _ _ | .remapView name _ _ _ | .moveView name _ _ | .unmapView name
  | .releaseView name | .storeView name _ _ | .syncView name => .view name
  | .openChannel name _ _ _ | .attachChannel name _ _ | .callChannel name _ | .closeChannel name
  | .dropChannel name => .channel name

/-- Outside of one site everything stands as it did, with the cursors where they were. -/
structure Leaves (site : Site) (s s' : Workspace) : Prop where
  mapping : ∀ n, site ≠ .mapping n → s'.mapping n = s.mapping n
  view : ∀ n, site ≠ .view n → s'.view n = s.view n
  channel : ∀ n, site ≠ .channel n → s'.channel n = { s.channel n with table := s'.table }

variable {s s' : Workspace} {name : String}

@[simp] theorem mapping_setMapping (s : Workspace) (name : String) (m : Mapping) (t : MapTable) :
    (s.setMapping name m t).mapping name = m := by
  simp [setMapping, mapping, Keyed.lookup_put_self]

@[simp] theorem view_setView (s : Workspace) (name : String) (v : View) (t : MapTable) :
    (s.setView name v t).view name = v := by
  simp [setView, view, Keyed.lookup_put_self]

@[simp] theorem channel_setChannel (s : Workspace) (name : String) (c : Mapped) :
    (s.setChannel name c).channel name = c := by
  simp [setChannel, channel, Keyed.lookup_put_self]

/-- The channel that is kept under a name comes with the table as it is. -/
theorem channel_congr (h : s'.channels.lookup name = s.channels.lookup name) :
    s'.channel name = { s.channel name with table := s'.table } := by
  unfold channel
  rw [h]
  cases s.channels.lookup name <;> rfl

theorem leaves_table (site : Site) (s : Workspace) (t : MapTable) :
    Leaves site s { s with table := t } :=
  ⟨fun _ _ => rfl, fun _ _ => rfl, fun _ _ => channel_congr rfl⟩

theorem leaves_setMapping (s : Workspace) (name : String) (m : Mapping) (t : MapTable) :
    Leaves (.mapping name) s (s.setMapping name m t) := by
  refine ⟨fun n hn => ?_, fun _ _ => rfl, fun _ _ => channel_congr rfl⟩
  have hne : n ≠ name := fun he => hn (he ▸ rfl)
  simp only [setMapping, mapping, Keyed.lookup_put_of_ne _ hne]

theorem leaves_setView (s : Workspace) (name : String) (v : View) (t : MapTable) :
    Leaves (.view name) s (s.setView name v t) := by
  refine ⟨fun _ _ => rfl, fun n hn => ?_, fun _ _ => channel_congr rfl⟩
  have hne : n ≠ name := fun he => hn (he ▸ rfl)
  simp only [setView, view, Keyed.lookup_put_of_ne _ hne]

theorem leaves_setChannel (s : Workspace) (name : String) (c : Mapped) :
    Leaves (.channel name) s (s.setChannel name c) := by
  refine ⟨fun _ _ => rfl, fun _ _ => rfl, fun n hn => channel_congr ?_⟩
  have hne : n ≠ name := fun he => hn (he ▸ rfl)
  exact Keyed.lookup_put_of_ne c hne s.channels

theorem lookup_filter_ne (xs : List (String × Mapped)) (n name : String) :
    (xs.filter fun c => c.1 != name).lookup n = if n = name then none else xs.lookup n := by
  induction xs with
  | nil => simp
  | cons x xs ih =>
    obtain ⟨k, c⟩ := x
    by_cases hk : k = name
    · subst hk
      have hdrop : (((k, c) :: xs).filter fun c => c.1 != k) = xs.filter fun c => c.1 != k := by
        simp
      rw [hdrop, ih]
      by_cases hn : n = k
      · rw [if_pos hn, if_pos hn]
      · rw [if_neg hn, if_neg hn, List.lookup_cons, beq_false_of_ne hn]
    · by_cases hn : n = k
      · subst hn
        simp [hk]
      · simp [ih, hk, List.lookup_cons, beq_false_of_ne hn]

/-- A dropped channel is like one that was never opened. -/
theorem channel_dropChannel (s : Workspace) (name : String) :
    (s.dropChannel name).channel name = { table := (s.dropChannel name).table } := by
  simp [dropChannel, channel, lookup_filter_ne]

theorem leaves_dropChannel (s : Workspace) (name : String) :
    Leaves (.channel name) s (s.dropChannel name) := by
  refine ⟨fun _ _ => rfl, fun _ _ => rfl, fun n hn => channel_congr ?_⟩
  have hne : n ≠ name := fun he => hn (he ▸ rfl)
  exact (lookup_filter_ne s.channels n name).trans (if_neg hne)

theorem leaves_takeMapping (s : Workspace) (name : String)
    (r : Except ChannelError Mapping × MapTable) :
    Leaves (.mapping name) s (s.takeMapping name r).2 := by
  unfold takeMapping
  split
  · exact leaves_setMapping s name _ _
  · exact leaves_table _ s _

theorem leaves_perform [Paging] (s : Workspace) (call : Call) :
    Leaves call.site s (s.perform call).2 := by
  cases call with
  | openMapping name path mode => exact leaves_takeMapping s name _
  | mapFile name path access mode size =>
    simp only [perform, mapFile]
    split
    · exact leaves_table _ s s.table
    · exact leaves_takeMapping s name _
  | cloneMapping name source => exact leaves_setMapping s name _ _
  | cloneChannel name source => exact leaves_setMapping s name _ _
  | closeMapping name => exact leaves_setMapping s name _ _
  | bindView name source offset len =>
    simp only [perform, bindView]
    split
    · exact leaves_setView s name _ _
    · exact leaves_table _ s _
  | remapView name source offset len => exact leaves_setView s name _ _
  | moveView name offset len => exact leaves_setView s name _ _
  | unmapView name => exact leaves_setView s name _ _
  | releaseView name => exact leaves_setView s name _ _
  | storeView name pos bs =>
    simp only [perform, storeView]
    split
    · exact leaves_setView s name _ _
    · exact leaves_table _ s s.table
  | syncView name => exact leaves_table _ s _
  | openChannel name path mode keepPrivate => exact leaves_setChannel s name _
  | attachChannel name source mode => exact leaves_setChannel s name _
  | callChannel name call => exact leaves_setChannel s name _
  | closeChannel name => exact leaves_setChannel s name _
  | dropChannel name => exact leaves_dropChannel s name

end ByteChannel.Workspace
