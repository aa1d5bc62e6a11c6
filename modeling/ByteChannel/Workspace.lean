import ByteChannel.Mapped.Transfer

/-!
# Sharing one table

Mappings, views and channels under names, all on one table, so that what one of them
changes the others see. A name that is used again gives up what it stood for. Each
channel works on the table as the others left it.
-/

namespace ByteChannel

structure Workspace where
  table : MapTable
  mappings : List (String × Mapping) := []
  views : List (String × View) := []
  channels : List (String × Mapped) := []

namespace Workspace

def ofDisk (d : Disk) : Workspace := { table := { disk := d } }

/-! ## Mappings -/

/-- The mapping of a name; a new name stands for a closed one. -/
def mapping (s : Workspace) (name : String) : Mapping := (s.mappings.lookup name).getD {}

/-- Puts a mapping under a name, after a change of the table. The one before is closed. -/
def setMapping (s : Workspace) (name : String) (m : Mapping) (t : MapTable) : Workspace :=
  { s with
    table := ((s.mapping name).close t).2
    mappings := Keyed.put name m s.mappings }

/-- Puts a mapping that was made under a name; a failure leaves the one before. -/
def takeMapping (s : Workspace) (name : String) (r : Except ChannelError Mapping × MapTable) :
    Except ChannelError Unit × Workspace :=
  match r.1 with
  | .ok m => (.ok (), s.setMapping name m r.2)
  | .error e => (.error e, { s with table := r.2 })

def openMapping (s : Workspace) (name path : String) (mode : MapMode) :
    Except ChannelError Unit × Workspace :=
  s.takeMapping name (Mapping.openPath s.table path mode)

/-- Maps a file that is opened for it with the access given. -/
def mapFile (s : Workspace) (name path : String) (access : OpenRequest) (mode : MapMode)
    (size : Option Nat) : Except ChannelError Unit × Workspace :=
  match (s.table.disk.openFile path access).1 with
  | .error e => (.error (.io e), s)
  | .ok file => s.takeMapping name (Mapping.ofFile s.table file mode size)

def cloneMapping (s : Workspace) (name source : String) : Workspace :=
  let r := (s.mapping source).clone s.table
  s.setMapping name r.1 r.2

def closeMapping (s : Workspace) (name : String) : Workspace := s.setMapping name {} s.table

/-! ## Views -/

def view (s : Workspace) (name : String) : View := (s.views.lookup name).getD {}

def setView (s : Workspace) (name : String) (v : View) (t : MapTable) : Workspace :=
  { s with table := t, views := Keyed.put name v s.views }

/-- Binds a new view and puts it under a name. The one before is released; a failure leaves it. -/
def bindView (s : Workspace) (name source : String) (offset len : Nat) :
    Except ChannelError Unit × Workspace :=
  let r := View.bind s.table (s.mapping source) offset len
  match r.1 with
  | .ok () => (.ok (), s.setView name r.2.1 ((s.view name).release r.2.2).2)
  | .error e => (.error e, { s with table := (r.2.1.release r.2.2).2 })

def remapView (s : Workspace) (name source : String) (offset len : Nat) :
    Except ChannelError Unit × Workspace :=
  let r := (s.view name).remap s.table (s.mapping source) offset len
  (r.1, s.setView name r.2.1 r.2.2)

def moveView (s : Workspace) (name : String) (offset len : Nat) :
    Except ChannelError Unit × Workspace :=
  let r := (s.view name).moveTo s.table offset len
  (r.1, s.setView name r.2.1 r.2.2)

def unmapView (s : Workspace) (name : String) : Workspace :=
  s.setView name (s.view name).unmap s.table

def releaseView (s : Workspace) (name : String) : Workspace :=
  let r := (s.view name).release s.table
  s.setView name r.1 r.2

/-- Stores bytes from a position of a view on, so many as fit, and answers how many. A view that is
not writable takes none. -/
def storeView [Paging] (s : Workspace) (name : String) (pos : Nat) (bs : Bytes) :
    Option Nat × Workspace :=
  let v := s.view name
  let pos := min pos v.length
  let bs := bs.take (v.length - pos)
  match v.store? s.table pos bs with
  | some r => (some bs.length, s.setView name r.1 r.2)
  | none => (none, s)

def syncView (s : Workspace) (name : String) : Except ChannelError Unit × Workspace :=
  let r := (s.view name).sync s.table
  (r.1, { s with table := r.2 })

/-! ## Channels -/

/-- The channel of a name, on the table as it is; a new name stands for a closed one. -/
def channel (s : Workspace) (name : String) : Mapped :=
  { (s.channels.lookup name).getD { table := s.table } with table := s.table }

def setChannel (s : Workspace) (name : String) (c : Mapped) : Workspace :=
  { s with table := c.table, channels := Keyed.put name c s.channels }

def attachChannel (s : Workspace) (name source : String) (mode : OpenMode) :
    Except ChannelError Unit × Workspace :=
  let r := (s.channel name).attach (s.mapping source) mode
  (r.1, s.setChannel name r.2)

/-- Forgets a channel, which is closed. -/
def dropChannel (s : Workspace) (name : String) : Workspace :=
  { s with
    table := (s.channel name).discard.table
    channels := s.channels.filter fun c => c.1 != name }

end Workspace

end ByteChannel
