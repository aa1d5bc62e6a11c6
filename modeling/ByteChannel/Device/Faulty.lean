import ByteChannel.Device.Cursor

/-!
# Devices that misbehave on purpose

A cursor whose transfers are cut into chunks, stop after a quota, and are interrupted
at regular calls. Quotas and chunk sizes can be changed while the device is in use, and
every call is counted. A channel over such a device meets every failure it must survive.
-/

namespace ByteChannel

structure Faulty where
  cursor : Cursor := .ofBytes [] 0
  readChunk : Option Nat := none
  writeChunk : Option Nat := none
  readQuota : Option Nat := none
  writeQuota : Option Nat := none
  seekQuota : Option Nat := none
  /-- Every so many transfers one is interrupted. A period below two stands for never, since a
  device that is always interrupted serves nobody. -/
  interruptPeriod : Nat := 0
  /-- A used up write quota takes nothing, in place of failing. -/
  takesNothing : Bool := false
  failsClose : Bool := false
  ticks : Nat := 0
  reads : Nat := 0
  writes : Nat := 0
  seeks : Nat := 0
  closes : Nat := 0
  deriving DecidableEq, Repr

namespace Faulty

def interruption : IoError := ⟨.interrupted, "interrupted"⟩

def readFailed : IoError := ⟨.other, "read failed"⟩

def diskFull : IoError := ⟨.other, "disk full"⟩

def illegalSeek : IoError := ⟨.unsupported, "illegal seek"⟩

def closeFailed : IoError := ⟨.other, "close failed"⟩

def interruptsAt (period tick : Nat) : Bool := 2 ≤ period && tick % period == 0

/-- An amount under a limit, if there is one. -/
def limited (n : Nat) : Option Nat → Nat
  | some m => min n m
  | none => n

/-- The first bytes, no more than a limit says, if there is one. -/
def takeLimited (bs : Bytes) : Option Nat → Bytes
  | some m => bs.take m
  | none => bs

def read (d : Faulty) (n : Nat) : Except IoError Bytes × Faulty :=
  let d := { d with reads := d.reads + 1, ticks := d.ticks + 1 }
  if interruptsAt d.interruptPeriod d.ticks then (.error interruption, d)
  else if d.readQuota = some 0 then (.error readFailed, d)
  else
    let r := d.cursor.read (limited (limited n d.readChunk) d.readQuota)
    (.ok r.1, { d with cursor := r.2, readQuota := d.readQuota.map (· - r.1.length) })

def write (d : Faulty) (src : Bytes) : Except IoError Nat × Faulty :=
  let d := { d with writes := d.writes + 1, ticks := d.ticks + 1 }
  if interruptsAt d.interruptPeriod d.ticks then (.error interruption, d)
  else if d.writeQuota = some 0 then
    if d.takesNothing then (.ok 0, d) else (.error diskFull, d)
  else
    let taken := takeLimited (takeLimited src d.writeChunk) d.writeQuota
    (.ok taken.length, { d with
      cursor := d.cursor.write taken
      writeQuota := d.writeQuota.map (· - taken.length) })

def seek (d : Faulty) (o : Origin) : Except IoError Nat × Faulty :=
  let d := { d with seeks := d.seeks + 1 }
  if d.seekQuota = some 0 then (.error illegalSeek, d)
  else
    let r := d.cursor.seek o
    (r.1, { d with cursor := r.2, seekQuota := d.seekQuota.map (· - 1) })

def close (d : Faulty) : Except IoError Unit × Faulty :=
  let d := { d with closes := d.closes + 1 }
  (if d.failsClose then .error closeFailed else .ok (), d)

/-- One interruption lies ahead if the next transfer is an interrupted one. -/
def patience (d : Faulty) : Nat :=
  if interruptsAt d.interruptPeriod (d.ticks + 1) then 1 else 0

theorem limited_le (n : Nat) (limit : Option Nat) : limited n limit ≤ n := by
  cases limit with
  | none => exact Nat.le_refl n
  | some m => exact Nat.min_le_left n m

theorem length_takeLimited (bs : Bytes) (limit : Option Nat) :
    (takeLimited bs limit).length = limited bs.length limit := by
  cases limit with
  | none => rfl
  | some m => rw [takeLimited, List.length_take, Nat.min_comm, limited]

theorem length_takeLimited_le (bs : Bytes) (limit : Option Nat) :
    (takeLimited bs limit).length ≤ bs.length := by
  rw [length_takeLimited]
  exact limited_le _ _

/-- No two transfers in a row are interrupted. -/
theorem not_interruptsAt_succ {period tick : Nat} (h : interruptsAt period tick = true) :
    interruptsAt period (tick + 1) = false := by
  simp only [interruptsAt, Bool.and_eq_true, decide_eq_true_eq, beq_iff_eq] at h
  have : (tick + 1) % period = 1 % period := by simp [Nat.add_mod, h.2]
  simp [interruptsAt, this, Nat.mod_eq_of_lt (show 1 < period by omega)]

instance : Device Faulty where
  read := read
  write := write
  seek := seek
  close := close
  patience := patience
  length_read_le {d n bs} h := by
    dsimp only [read] at h
    repeat' split at h
    all_goals cases h
    exact Nat.le_trans (Cursor.length_read_le _ _)
      (Nat.le_trans (limited_le _ _) (limited_le _ _))
  patience_read_lt {d n e} h hk := by
    dsimp only [read] at h ⊢
    split at h
    · next hi => simp [hi, patience, not_interruptsAt_succ hi]
    · split at h
      · cases h
        cases hk
      · cases h
  patience_write_lt {d src e} h hk := by
    dsimp only [write] at h ⊢
    split at h
    · next hi => simp [hi, patience, not_interruptsAt_succ hi]
    · repeat' split at h
      all_goals cases h
      cases hk

instance : WritesWithin Faulty where
  write_le {d src k} h := by
    change (d.write src).1 = .ok k at h
    dsimp only [write] at h
    repeat' split at h
    all_goals cases h
    · exact Nat.zero_le _
    · exact Nat.le_trans (length_takeLimited_le _ _) (length_takeLimited_le _ _)

end Faulty

end ByteChannel
