import Mathlib
import ByteChannel.InMemory
import ByteChannel.Proofs.Ranges

/-!
# Bytes in memory as a tape with two heads

A tape is bytes with a place to read at and a place to write at, neither of them ever beyond the
bytes. It knows no regions and no words: a read takes from the bytes as they are, a write replaces
as many as there are, a seek goes to its exact target or to the end that lies nearest. A channel
over bytes in memory is such a tape. Every call answers what the tape answers and leaves the channel
of the tape that it leaves, also where the mode lacks a direction, and no call has an index outside.
-/

namespace ByteChannel

/-! ## The tape -/

structure Tape where
  bytes : Bytes
  get : Nat
  put : Nat
  get_le : get ≤ bytes.length
  put_le : put ≤ bytes.length

namespace InMemory

inductive Call
  | read (n : Nat)
  | readByte
  | peek
  | unread (b : UInt8)
  | write (src : Bytes)
  | writeByte (b : UInt8)
  | seek (o : Origin) (side : Side)
  deriving DecidableEq, Repr

inductive Answer
  | bytes (bs : Bytes)
  | byte (b : Option UInt8)
  | count (k : Nat)
  | flag (accepted : Bool)
  | position (r : Except ChannelError Nat)

end InMemory

open InMemory (Call Answer)

namespace Tape

def start (bs : Bytes) : Tape := ⟨bs, 0, 0, Nat.zero_le _, Nat.zero_le _⟩

/-- The input to come, for a mode that has input. -/
def input (t : Tape) (m : OpenMode) : Bytes := if m.isReadable then t.bytes.drop t.get else []

/-- How many bytes a write can replace, for a mode that has output. -/
def room (t : Tape) (m : OpenMode) : Nat := if m.isWritable then t.bytes.length - t.put else 0

/-- The place in the bytes that lies nearest to where a seek leads to. -/
def nearest (t : Tape) (o : Origin) (pos : Nat) : Nat :=
  (max 0 (min (o.target pos t.bytes.length) t.bytes.length)).toNat

theorem nearest_le (t : Tape) (o : Origin) (pos : Nat) : t.nearest o pos ≤ t.bytes.length := by
  rw [nearest]
  omega

theorem get_add_length_input_le (t : Tape) (m : OpenMode) :
    t.get + (t.input m).length ≤ t.bytes.length := by
  have hle := t.get_le
  unfold input
  split
  · rw [List.length_drop]
    omega
  · exact hle

theorem put_add_room_le (t : Tape) (m : OpenMode) : t.put + t.room m ≤ t.bytes.length := by
  have hle := t.put_le
  unfold room
  split
  · omega
  · exact hle

theorem put_add_length_take_le (t : Tape) (m : OpenMode) (src : Bytes) :
    t.put + (src.take (t.room m)).length ≤ t.bytes.length := by
  have hle := t.put_add_room_le m
  rw [List.length_take]
  omega

/-- Past `k` bytes of input. -/
def pass (t : Tape) (k : Nat) (h : t.get + k ≤ t.bytes.length) : Tape :=
  { t with get := t.get + k, get_le := h }

/-- Takes up to `n` bytes of input. -/
def take (t : Tape) (m : OpenMode) (n : Nat) : Bytes × Tape :=
  ((t.input m).take n, t.pass (min n (t.input m).length) (by
    have hle := t.get_add_length_input_le m
    omega))

theorem length_replaced (t : Tape) {bs : Bytes} (h : t.put + bs.length ≤ t.bytes.length) :
    (t.bytes.take t.put ++ bs ++ t.bytes.drop (t.put + bs.length)).length = t.bytes.length := by
  simp only [List.length_append, List.length_take, List.length_drop]
  omega

/-- Puts `bs` in the place of as many bytes. -/
def lay (t : Tape) (bs : Bytes) (h : t.put + bs.length ≤ t.bytes.length) : Tape where
  bytes := t.bytes.take t.put ++ bs ++ t.bytes.drop (t.put + bs.length)
  get := t.get
  put := t.put + bs.length
  get_le := t.length_replaced h ▸ t.get_le
  put_le := t.length_replaced h ▸ h

/-- Writes as much of `src` as there is room for. -/
def give (t : Tape) (m : OpenMode) (src : Bytes) : Nat × Tape :=
  (min src.length (t.room m), t.lay (src.take (t.room m)) (t.put_add_length_take_le m src))

/-- Back over a byte that is still there. -/
def unread (t : Tape) (m : OpenMode) (b : UInt8) : Bool × Tape :=
  if m.isReadable ∧ 0 < t.get ∧ t.bytes[t.get - 1]? = some b then
    (true, { t with get := t.get - 1, get_le := Nat.le_trans (Nat.sub_le _ _) t.get_le })
  else (false, t)

/-- Both places after a seek, of which only the selected ones move. -/
def steer (t : Tape) (o : Origin) (onGet onPut : Bool) : Tape :=
  { t with
    get := if onGet then t.nearest o t.get else t.get
    put := if onPut then t.nearest o t.put else t.put
    get_le := by
      split
      · exact t.nearest_le o t.get
      · exact t.get_le
    put_le := by
      split
      · exact t.nearest_le o t.put
      · exact t.put_le }

def seek (t : Tape) (m : OpenMode) (o : Origin) (side : Side) : Except ChannelError Nat × Tape :=
  let onGet := side.includesGet && m.isReadable
  let onPut := side.includesPut && m.isWritable
  if onGet = false ∧ onPut = false then (.error .noDirectionToSeek, t)
  else if o = .current 0 then (.ok (if onGet then t.get else t.put), t)
  else (.ok (t.nearest o (if onPut then t.put else t.get)), t.steer o onGet onPut)

def perform (t : Tape) (m : OpenMode) : Call → Answer × Tape
  | .read n => (t.take m n).map .bytes id
  | .readByte => (t.take m 1).map (fun bs => .byte bs.head?) id
  | .peek => (.byte (t.input m).head?, t)
  | .unread b => (t.unread m b).map .flag id
  | .write src => (t.give m src).map .count id
  | .writeByte b => (t.give m [b]).map (fun k => .flag (k == 1)) id
  | .seek o side => (t.seek m o side).map .position id

def performAll (t : Tape) (m : OpenMode) : List Call → List Answer × Tape
  | [] => ([], t)
  | call :: calls =>
    let r := t.perform m call
    (r.2.performAll m calls).map (r.1 :: ·) id

end Tape

namespace InMemory

def perform (c : InMemory) : Call → Answer × InMemory
  | .read n => (c.read n).map .bytes id
  | .readByte => c.readByte.map .byte id
  | .peek => (.byte c.peek, c)
  | .unread b => (c.unread b).map .flag id
  | .write src => (c.write src).map .count id
  | .writeByte b => (c.writeByte b).map .flag id
  | .seek o side => (c.seek o side).map .position id

def performAll (c : InMemory) : List Call → List Answer × InMemory
  | [] => ([], c)
  | call :: calls =>
    let r := c.perform call
    (r.2.performAll calls).map (r.1 :: ·) id

end InMemory

/-! ## Regions from the start of the bytes -/

namespace Region

variable {pos size : Nat}

theorem consumed_clamped (h : pos ≤ size) : (clamped 0 pos size).consumed = pos := by
  rw [consumed, next_clamped, base_clamped, Nat.min_eq_left h, Nat.sub_zero]

@[simp]
theorem capacity_clamped (pos size : Nat) : (clamped 0 pos size).capacity = size := by
  rw [capacity, limit_clamped, base_clamped, Nat.sub_zero]

theorem bump_clamped {k : Nat} (h : pos + k ≤ size) :
    (clamped 0 pos size).bump k = clamped 0 (pos + k) size := by
  simp only [clamped, bump, mk.injEq, true_and, and_true]
  omega

theorem moveTo_clamped (pos target size : Nat) :
    (clamped 0 pos size).moveTo target = clamped 0 target size := by
  simp only [clamped, moveTo, mk.injEq, true_and, and_true]
  omega

theorem stepBack?_clamped (h : pos ≤ size) :
    (clamped 0 pos size).stepBack? = if 0 < pos then some (clamped 0 (pos - 1) size) else none := by
  rw [clamped_of_le (Nat.zero_le _) h, stepBack?]
  split
  · rw [clamped_of_le (Nat.zero_le _) (Nat.le_trans (Nat.sub_le _ _) h)]
  · rfl

end Region

/-! ## The channel of a tape -/

namespace Tape

def channel (t : Tape) (m : OpenMode) : InMemory where
  data := t.bytes
  mode := m
  get := if m.isReadable then .clamped 0 t.get t.bytes.length else .empty
  put :=
    if m.isWritable then .clamped 0 t.put t.bytes.length
    else .clamped t.bytes.length t.bytes.length t.bytes.length

variable (t : Tape) (m : OpenMode)

theorem channel_start (bs : Bytes) : (start bs).channel m = .ofBytes bs m := rfl

variable {t m}

theorem get_channel (hr : m.isReadable = true) :
    (t.channel m).get = .clamped 0 t.get t.bytes.length := if_pos hr

theorem get_channel_of_not (hr : m.isReadable = false) : (t.channel m).get = .empty :=
  if_neg (hr ▸ Bool.false_ne_true)

theorem put_channel (hw : m.isWritable = true) :
    (t.channel m).put = .clamped 0 t.put t.bytes.length := if_pos hw

/-- Without output the region lies behind the last byte. -/
theorem put_channel_of_not (hw : m.isWritable = false) :
    (t.channel m).put =
      ⟨t.bytes.length, t.bytes.length, t.bytes.length, Nat.le_refl _, Nat.le_refl _⟩ :=
  (if_neg (hw ▸ Bool.false_ne_true)).trans
    (Region.clamped_of_le (Nat.le_refl _) (Nat.le_refl _))

theorem input_of (hr : m.isReadable = true) : t.input m = t.bytes.drop t.get := if_pos hr

theorem input_of_not (hr : m.isReadable = false) : t.input m = [] :=
  if_neg (hr ▸ Bool.false_ne_true)

theorem room_of (hw : m.isWritable = true) : t.room m = t.bytes.length - t.put := if_pos hw

theorem room_of_not (hw : m.isWritable = false) : t.room m = 0 := if_neg (hw ▸ Bool.false_ne_true)

theorem available_get : (t.channel m).get.available = (t.input m).length := by
  cases hr : m.isReadable with
  | false =>
    rw [get_channel_of_not hr, input_of_not hr]
    rfl
  | true => rw [get_channel hr, input_of hr, Region.available_clamped, List.length_drop]

/-- What the region of the input covers is the input. -/
theorem slice_get {k : Nat} (hk : k ≤ (t.input m).length) :
    slice t.bytes (t.channel m).get.next ((t.channel m).get.next + k) = (t.input m).take k := by
  cases hr : m.isReadable with
  | false =>
    rw [input_of_not hr] at hk ⊢
    obtain rfl : k = 0 := Nat.le_zero.1 hk
    exact slice_of_stop_le_start _ (Nat.le_refl _)
  | true =>
    rw [get_channel hr, input_of hr, Region.next_clamped, Nat.min_eq_left t.get_le, slice,
      Nat.add_sub_cancel_left]

theorem getData_channel : (t.channel m).getData = t.input m := by
  have hnext := (t.channel m).get.next_le_limit
  have hlimit : (t.channel m).get.limit =
      (t.channel m).get.next + (t.input m).length := by
    rw [← available_get, Region.available]
    omega
  rw [InMemory.getData, hlimit]
  exact (slice_get (Nat.le_refl _)).trans (List.take_of_length_le (Nat.le_refl _))

theorem channel_pass {k : Nat} (hk : k ≤ (t.input m).length) (h : t.get + k ≤ t.bytes.length) :
    (t.pass k h).channel m = { t.channel m with get := (t.channel m).get.bump k } := by
  cases hr : m.isReadable with
  | false =>
    rw [input_of_not hr] at hk
    obtain rfl : k = 0 := Nat.le_zero.1 hk
    rw [Region.bump_zero]
    rfl
  | true =>
    have hget : ((t.pass k h).channel m).get = (t.channel m).get.bump k := by
      rw [get_channel hr, get_channel hr, Region.bump_clamped h, pass]
    exact hget ▸ rfl

theorem read_channel (n : Nat) :
    (t.channel m).read n = ((t.take m n).1, (t.take m n).2.channel m) := by
  have hk : min n (t.input m).length ≤ (t.input m).length := Nat.min_le_right _ _
  have hbytes : slice (t.channel m).data (t.channel m).get.next
      ((t.channel m).get.next + min n (t.input m).length) = (t.input m).take n :=
    (slice_get hk).trans List.take_eq_take_min.symm
  rw [take, channel_pass hk, InMemory.read, available_get]
  exact congrArg (·, _) hbytes

theorem peek_channel : (t.channel m).peek = (t.input m).head? := by
  rw [InMemory.peek, available_get]
  cases hr : m.isReadable with
  | false =>
    rw [input_of_not hr]
    rfl
  | true =>
    rw [input_of hr, get_channel hr, Region.next_clamped, Nat.min_eq_left t.get_le,
      List.head?_drop, List.length_drop]
    by_cases hlt : t.get < t.bytes.length
    · rw [if_pos (by omega), getElem?_eq_some_getD hlt]
      rfl
    · rw [if_neg (by omega), List.getElem?_eq_none (Nat.le_of_not_lt hlt)]

theorem readByte_channel :
    (t.channel m).readByte = ((t.take m 1).1.head?, (t.take m 1).2.channel m) := by
  have hk : min 1 (t.input m).length ≤ (t.input m).length := Nat.min_le_right _ _
  rw [InMemory.readByte, peek_channel, take, channel_pass hk]
  dsimp only
  cases hin : t.input m with
  | nil =>
    rw [List.length_nil, Nat.min_zero, Region.bump_zero]
    rfl
  | cons b rest =>
    rw [List.length_cons, Nat.min_eq_left (Nat.le_add_left 1 _)]
    rfl

theorem unread_channel (b : UInt8) :
    (t.channel m).unread b = ((t.unread m b).1, (t.unread m b).2.channel m) := by
  have hle := t.get_le
  cases hr : m.isReadable with
  | false =>
    rw [InMemory.unread, get_channel_of_not hr, unread, if_neg (by simp [hr])]
    rfl
  | true =>
    rw [InMemory.unread, get_channel hr, Region.stepBack?_clamped hle, unread]
    by_cases hpos : 0 < t.get
    · have hlt : t.get - 1 < t.bytes.length := by omega
      rw [if_pos hpos, getElem?_eq_some_getD hlt]
      simp only [Region.next_clamped, Nat.min_eq_left (Nat.le_of_lt hlt), hr, hpos, true_and,
        Option.some.injEq]
      have hget : ({ t with get := t.get - 1, get_le := Nat.le_of_lt hlt } : Tape).channel m =
          { t.channel m with get := .clamped 0 (t.get - 1) t.bytes.length } := by
        rw [channel, if_pos hr]
        rfl
      by_cases heq : t.bytes.getD (t.get - 1) 0 = b
      · rw [if_pos heq, hget]
        exact if_pos heq
      · rw [if_neg heq]
        exact if_neg heq
    · rw [if_neg hpos, if_neg (by simp [hpos])]

theorem available_put : (t.channel m).put.available = t.room m := by
  cases hw : m.isWritable with
  | false =>
    rw [put_channel_of_not hw, room_of_not hw]
    exact Nat.sub_self _
  | true => rw [put_channel hw, room_of hw, Region.available_clamped]

theorem lay_nil (h : t.put + [].length ≤ t.bytes.length) : t.lay [] h = t := by
  obtain ⟨bytes, get, put, hget, hput⟩ := t
  simp only [lay, List.append_nil, List.length_nil, Nat.add_zero, List.take_append_drop]

theorem channel_lay {bs : Bytes} (hroom : bs.length ≤ t.room m)
    (h : t.put + bs.length ≤ t.bytes.length) :
    (t.lay bs h).channel m =
      { t.channel m with
        data := overwrite t.bytes (t.channel m).put.next bs
        put := (t.channel m).put.bump bs.length } := by
  cases hw : m.isWritable with
  | false =>
    rw [room_of_not hw] at hroom
    obtain rfl : bs = [] := List.length_eq_zero_iff.1 (Nat.le_zero.1 hroom)
    have hnext : (t.channel m).put.next = t.bytes.length := by
      rw [put_channel_of_not hw]
    rw [lay_nil, hnext, overwrite_nil_new _ (Nat.le_refl _), List.length_nil, Region.bump_zero]
    rfl
  | true =>
    rw [put_channel hw, Region.bump_clamped h, Region.next_clamped, Nat.min_eq_left t.put_le,
      overwrite_eq_take_append_drop _ _ t.put_le, channel, if_pos hw]
    simp only [lay, t.length_replaced h]
    rfl

theorem write_channel (src : Bytes) :
    (t.channel m).write src = ((t.give m src).1, (t.give m src).2.channel m) := by
  have hbs : src.take (min src.length (t.room m)) = src.take (t.room m) := by
    rw [Nat.min_comm]
    exact List.take_eq_take_min.symm
  have hroom : (src.take (t.room m)).length ≤ t.room m := List.length_take_le _ _
  have hk : (src.take (t.room m)).length = min src.length (t.room m) := by
    rw [List.length_take, Nat.min_comm]
  rw [InMemory.write, available_put, hbs, give, channel_lay hroom, hk]
  rfl

theorem writeByte_channel (b : UInt8) :
    (t.channel m).writeByte b = ((t.give m [b]).1 == 1, (t.give m [b]).2.channel m) := by
  rw [InMemory.writeByte, write_channel]

/-- Words that saturate lead to the same place as exact numbers. -/
theorem motion_clamped {pos : Nat} (o : Origin) (hpos : pos ≤ t.bytes.length)
    (hword : t.bytes.length ≤ maxWord) :
    InMemory.motion (.clamped 0 pos t.bytes.length) o =
      if o = .current 0 then .report pos
      else .move (.clamped 0 (t.nearest o pos) t.bytes.length) (t.nearest o pos) := by
  have htarget : t.nearest o pos = o.clampedTarget pos t.bytes.length := by
    rw [nearest, ← o.clampedTarget_eq hpos hword, Int.toNat_natCast]
  rw [InMemory.motion, Region.consumed_clamped hpos, Region.capacity_clamped, htarget]
  simp only [Region.moveTo_clamped]

theorem channel_steer (o : Origin) {onGet onPut : Bool} (hg : onGet = true → m.isReadable = true)
    (hp : onPut = true → m.isWritable = true) :
    (t.steer o onGet onPut).channel m =
      { t.channel m with
        get := if onGet then .clamped 0 (t.nearest o t.get) t.bytes.length else (t.channel m).get
        put :=
          if onPut then .clamped 0 (t.nearest o t.put) t.bytes.length else (t.channel m).put } := by
  have hget : ((t.steer o onGet onPut).channel m).get =
      if onGet then .clamped 0 (t.nearest o t.get) t.bytes.length else (t.channel m).get := by
    cases onGet with
    | false => rfl
    | true => exact get_channel (hg rfl)
  have hput : ((t.steer o onGet onPut).channel m).put =
      if onPut then .clamped 0 (t.nearest o t.put) t.bytes.length else (t.channel m).put := by
    cases onPut with
    | false => rfl
    | true => exact put_channel (hp rfl)
  rw [← hget, ← hput]
  rfl

theorem seek_channel (o : Origin) (side : Side) (hword : t.bytes.length ≤ maxWord) :
    (t.channel m).seek o side = ((t.seek m o side).1, (t.seek m o side).2.channel m) := by
  have hmode : (t.channel m).mode = m := rfl
  have hreads (h : (side.includesGet && m.isReadable) = true) : m.isReadable = true :=
    (Bool.and_eq_true_iff.1 h).2
  have hwrites (h : (side.includesPut && m.isWritable) = true) : m.isWritable = true :=
    (Bool.and_eq_true_iff.1 h).2
  have hget (h : (side.includesGet && m.isReadable) = true) :=
    (congrArg (InMemory.motion · o) (get_channel (hreads h))).trans
      (motion_clamped o t.get_le hword)
  have hput (h : (side.includesPut && m.isWritable) = true) :=
    (congrArg (InMemory.motion · o) (put_channel (hwrites h))).trans
      (motion_clamped o t.put_le hword)
  have hsteer := channel_steer (t := t) o hreads hwrites
  -- The cases are the directions that are both selected and open. Asking where one is stops at the
  -- first of them, a displacement goes through all.
  rw [InMemory.seek, seek, hmode]
  cases hg : side.includesGet && m.isReadable with
  | false =>
    cases hp : side.includesPut && m.isWritable with
    | false => rfl
    | true =>
      rw [hg, hp] at hsteer
      by_cases hhere : o = .current 0
      · simp [hput hp, if_pos hhere]
      · simp [hput hp, if_neg hhere, hsteer, hmode]
  | true =>
    cases hp : side.includesPut && m.isWritable with
    | false =>
      rw [hg, hp] at hsteer
      by_cases hhere : o = .current 0
      · simp [hget hg, if_pos hhere]
      · simp [hget hg, if_neg hhere, hsteer, hmode]
    | true =>
      rw [hg, hp] at hsteer
      by_cases hhere : o = .current 0
      · simp [hget hg, if_pos hhere]
      · simp [hget hg, hput hp, if_neg hhere, hsteer, hmode]

/-- A call on the channel of a tape is the call on the tape. -/
theorem perform_channel (call : Call) (hword : t.bytes.length ≤ maxWord) :
    (t.channel m).perform call = ((t.perform m call).1, (t.perform m call).2.channel m) := by
  cases call with
  | read n => exact congrArg (Prod.map Answer.bytes id) (read_channel n)
  | readByte => exact congrArg (Prod.map Answer.byte id) readByte_channel
  | peek => exact congrArg (fun b => (Answer.byte b, t.channel m)) peek_channel
  | unread b => exact congrArg (Prod.map Answer.flag id) (unread_channel b)
  | write src => exact congrArg (Prod.map Answer.count id) (write_channel src)
  | writeByte b => exact congrArg (Prod.map Answer.flag id) (writeByte_channel b)
  | seek o side => exact congrArg (Prod.map Answer.position id) (seek_channel o side hword)

/-! ## What calls leave as it was -/

/-- The bytes keep their number, and the places of a direction that the mode lacks stay. -/
structure Stays (t : Tape) (m : OpenMode) (size : Nat) : Prop where
  length : t.bytes.length = size
  get : m.isReadable = false → t.get = 0
  put : m.isWritable = false → t.put = 0

namespace Stays

variable {size : Nat}

theorem start (bs : Bytes) (m : OpenMode) : (start bs).Stays m bs.length where
  length := rfl
  get _ := rfl
  put _ := rfl

theorem take (h : t.Stays m size) (n : Nat) : (t.take m n).2.Stays m size where
  length := h.length
  get hr := by
    change t.get + min n (t.input m).length = 0
    rw [input_of_not hr, List.length_nil, Nat.min_zero, h.get hr]
  put := h.put

theorem give (h : t.Stays m size) (src : Bytes) : (t.give m src).2.Stays m size where
  length := Eq.trans (t.length_replaced (t.put_add_length_take_le m src)) h.length
  get := h.get
  put hw := by
    change t.put + (src.take (t.room m)).length = 0
    rw [room_of_not hw, List.take_zero, List.length_nil, h.put hw]

theorem unread (h : t.Stays m size) (b : UInt8) : (t.unread m b).2.Stays m size := by
  unfold Tape.unread
  split
  case isTrue hb => exact ⟨h.length, fun hr => absurd hb.1 (by simp [hr]), h.put⟩
  case isFalse => exact h

theorem seek (h : t.Stays m size) (o : Origin) (side : Side) :
    (t.seek m o side).2.Stays m size := by
  unfold Tape.seek
  dsimp only
  split
  · exact h
  · split
    · exact h
    · refine ⟨h.length, fun hr => ?_, fun hw => ?_⟩
      · rw [hr, Bool.and_false]
        exact h.get hr
      · rw [hw, Bool.and_false]
        exact h.put hw

theorem perform (h : t.Stays m size) (call : Call) : (t.perform m call).2.Stays m size := by
  cases call with
  | read n => exact h.take n
  | readByte => exact h.take 1
  | peek => exact h
  | unread b => exact h.unread b
  | write src => exact h.give src
  | writeByte b => exact h.give [b]
  | seek o side => exact h.seek o side

theorem performAll (h : t.Stays m size) (calls : List Call) :
    (t.performAll m calls).2.Stays m size := by
  induction calls generalizing t with
  | nil => exact h
  | cons call calls ih => exact ih (h.perform call)

/-- Calls on the channel of a tape are the calls on the tape. -/
theorem performAll_channel (h : t.Stays m size) (hword : size ≤ maxWord) (calls : List Call) :
    (t.channel m).performAll calls =
      ((t.performAll m calls).1, (t.performAll m calls).2.channel m) := by
  -- The step keeps the number of bytes, which keeps the bound on words.
  induction calls generalizing t with
  | nil => rfl
  | cons call calls ih =>
    rw [InMemory.performAll, perform_channel call (h.length.symm ▸ hword), ih (h.perform call)]
    rfl

end Stays

end Tape

/-! ## The calls with their indices checked -/

namespace InMemory

variable {c : InMemory}

def getData? (c : InMemory) : Option Bytes := slice? c.data c.get.next c.get.limit

def putData? (c : InMemory) : Option Bytes := slice? c.data c.put.base c.put.next

def read? (c : InMemory) (n : Nat) : Option (Bytes × InMemory) := do
  let k := min n c.get.available
  let bs ← slice? c.data c.get.next (c.get.next + k)
  let bs ← fitting? n bs
  some (bs, { c with get := c.get.bump k })

def peek? (c : InMemory) : Option (Option UInt8) :=
  if 0 < c.get.available then do
    let b ← c.data[c.get.next]?
    some (some b)
  else some none

def readByte? (c : InMemory) : Option (Option UInt8 × InMemory) := do
  match ← c.peek? with
  | some b => some (some b, { c with get := c.get.bump 1 })
  | none => some (none, c)

def unread? (c : InMemory) (b : UInt8) : Option (Bool × InMemory) :=
  match c.get.stepBack? with
  | some get => do
    let last ← c.data[get.next]?
    some (if last = b then (true, { c with get := get }) else (false, c))
  | none => some (false, c)

def write? (c : InMemory) (src : Bytes) : Option (Nat × InMemory) := do
  let k := min src.length c.put.available
  let bs ← slice? src 0 k
  let data ← overwrite? c.data c.put.next bs
  some (k, { c with data := data, put := c.put.bump k })

def writeByte? (c : InMemory) (b : UInt8) : Option (Bool × InMemory) := do
  let r ← c.write? [b]
  some (r.1 == 1, r.2)

def perform? (c : InMemory) : Call → Option (Answer × InMemory)
  | .read n => (c.read? n).map (Prod.map .bytes id)
  | .readByte => c.readByte?.map (Prod.map .byte id)
  | .peek => c.peek?.map fun b => (.byte b, c)
  | .unread b => (c.unread? b).map (Prod.map .flag id)
  | .write src => (c.write? src).map (Prod.map .count id)
  | .writeByte b => (c.writeByte? b).map (Prod.map .flag id)
  | .seek o side => some ((c.seek o side).map .position id)

def performAll? (c : InMemory) : List Call → Option (List Answer × InMemory)
  | [] => some ([], c)
  | call :: calls => do
    let r ← c.perform? call
    let rs ← r.2.performAll? calls
    some (r.1 :: rs.1, rs.2)

/-- Both regions lie in the bytes. -/
structure Inside (c : InMemory) : Prop where
  get : c.get.limit ≤ c.data.length
  put : c.put.limit ≤ c.data.length

namespace Inside

theorem getData?_eq_some (h : c.Inside) : c.getData? = some c.getData :=
  slice?_eq_some c.get.next_le_limit h.get

theorem putData?_eq_some (h : c.Inside) : c.putData? = some c.putData :=
  slice?_eq_some c.put.base_le_next (Nat.le_trans c.put.next_le_limit h.put)

theorem read?_eq_some (h : c.Inside) (n : Nat) : c.read? n = some (c.read n) := by
  have hnext := c.get.next_le_limit
  have hlimit := h.get
  have hle : c.get.next + min n c.get.available ≤ c.data.length := by
    rw [Region.available]
    omega
  have hlen : (slice c.data c.get.next (c.get.next + min n c.get.available)).length ≤ n := by
    rw [length_slice]
    omega
  rw [read?, slice?_eq_some (Nat.le_add_right _ _) hle]
  simp only [Option.bind_eq_bind, Option.bind_some, fitting?_eq_some hlen]
  rfl

theorem peek?_eq_some (h : c.Inside) : c.peek? = some c.peek := by
  have hnext := c.get.next_le_limit
  have hlimit := h.get
  unfold peek? peek
  split
  case isTrue hpos =>
    have hlt : c.get.next < c.data.length := by
      rw [Region.available] at hpos
      omega
    rw [getElem?_eq_some_getD hlt]
    rfl
  case isFalse => rfl

theorem readByte?_eq_some (h : c.Inside) : c.readByte? = some c.readByte := by
  rw [readByte?, h.peek?_eq_some, readByte]
  cases c.peek with
  | none => rfl
  | some b => rfl

theorem unread?_eq_some (h : c.Inside) (b : UInt8) : c.unread? b = some (c.unread b) := by
  have hnext := c.get.next_le_limit
  have hlimit := h.get
  unfold unread? unread
  cases hback : c.get.stepBack? with
  | none => rfl
  | some get =>
    obtain ⟨-, -, hget⟩ := Region.stepBack?_spec hback
    have hlt : get.next < c.data.length := by omega
    simp only [getElem?_eq_some_getD hlt]
    rfl

theorem write?_eq_some (h : c.Inside) (src : Bytes) : c.write? src = some (c.write src) := by
  have hnext := c.put.next_le_limit
  have hlimit := h.put
  have hle : min src.length c.put.available ≤ src.length := Nat.min_le_left _ _
  have hfits : c.put.next + (src.take (min src.length c.put.available)).length ≤
      c.data.length := by
    rw [List.length_take, Region.available]
    omega
  rw [write?, slice?_zero_eq_some hle]
  simp only [Option.bind_eq_bind, Option.bind_some, overwrite?_eq_some hfits]
  rfl

theorem writeByte?_eq_some (h : c.Inside) (b : UInt8) : c.writeByte? b = some (c.writeByte b) := by
  rw [writeByte?, h.write?_eq_some]
  rfl

theorem perform?_eq_some (h : c.Inside) (call : Call) :
    c.perform? call = some (c.perform call) := by
  cases call with
  | read n => rw [perform?, h.read?_eq_some, perform, Option.map_some]
  | readByte => rw [perform?, h.readByte?_eq_some, perform, Option.map_some]
  | peek => rw [perform?, h.peek?_eq_some, perform, Option.map_some]
  | unread b => rw [perform?, h.unread?_eq_some, perform, Option.map_some]
  | write src => rw [perform?, h.write?_eq_some, perform, Option.map_some]
  | writeByte b => rw [perform?, h.writeByte?_eq_some, perform, Option.map_some]
  | seek o side => rfl

end Inside

end InMemory

namespace Tape

variable {t : Tape} {m : OpenMode}

theorem inside_channel (t : Tape) (m : OpenMode) : (t.channel m).Inside where
  get := by
    cases hr : m.isReadable with
    | false =>
      rw [get_channel_of_not hr]
      exact Nat.zero_le _
    | true =>
      rw [get_channel hr, Region.limit_clamped]
      exact Nat.le_refl _
  put := by
    cases hw : m.isWritable with
    | false =>
      rw [put_channel_of_not hw]
      exact Nat.le_refl _
    | true =>
      rw [put_channel hw, Region.limit_clamped]
      exact Nat.le_refl _

/-- No call of a run has an index outside. -/
theorem Stays.performAll?_channel {size : Nat} (h : t.Stays m size) (hword : size ≤ maxWord)
    (calls : List Call) :
    (t.channel m).performAll? calls = some ((t.channel m).performAll calls) := by
  induction calls generalizing t with
  | nil => rfl
  | cons call calls ih =>
    rw [InMemory.performAll?, (t.inside_channel m).perform?_eq_some, InMemory.performAll,
      perform_channel call (h.length.symm ▸ hword)]
    simp only [Option.bind_eq_bind, Option.bind_some, ih (h.perform call)]
    rfl

end Tape

namespace InMemory

/-- What a caller sees of a channel is what the tape has. -/
structure Shows (c : InMemory) (t : Tape) : Prop where
  data : c.data = t.bytes
  getPos : c.getPos = t.get
  putPos : c.putPos = t.put
  getData : c.getData = t.input c.mode
  putData : c.putData = t.bytes.take t.put
  getSize : c.getSize = (t.input c.mode).length
  putSize : c.putSize = t.put
  getData? : c.getData? = some c.getData
  putData? : c.putData? = some c.putData

end InMemory

namespace Tape.Stays

variable {t : Tape} {m : OpenMode} {size : Nat}

theorem getPos_channel (h : t.Stays m size) : (t.channel m).getPos = t.get := by
  cases hr : m.isReadable with
  | false =>
    rw [InMemory.getPos, get_channel_of_not hr, h.get hr]
    rfl
  | true => rw [InMemory.getPos, get_channel hr, Region.consumed_clamped t.get_le]

theorem putPos_channel (h : t.Stays m size) : (t.channel m).putPos = t.put := by
  cases hw : m.isWritable with
  | false =>
    rw [InMemory.putPos, put_channel_of_not hw, h.put hw]
    exact Nat.sub_self _
  | true => rw [InMemory.putPos, put_channel hw, Region.consumed_clamped t.put_le]

theorem putData_channel (h : t.Stays m size) : (t.channel m).putData = t.bytes.take t.put := by
  cases hw : m.isWritable with
  | false =>
    rw [InMemory.putData, put_channel_of_not hw, h.put hw]
    exact slice_of_stop_le_start _ (Nat.le_refl _)
  | true =>
    rw [InMemory.putData, put_channel hw, Region.next_clamped, Nat.min_eq_left t.put_le]
    rfl

theorem shows (h : t.Stays m size) : (t.channel m).Shows t where
  data := rfl
  getPos := h.getPos_channel
  putPos := h.putPos_channel
  getData := getData_channel
  putData := h.putData_channel
  getSize := available_get
  putSize := h.putPos_channel
  getData? := (t.inside_channel m).getData?_eq_some
  putData? := (t.inside_channel m).putData?_eq_some

end Tape.Stays

/-- A run of calls on a channel over bytes in memory answers what it answers on the tape of these
bytes, and at its end the channel shows what the tape has. No index was outside on the way, and the
bytes are as many as before. The hypothesis is that a word can count them. -/
theorem InMemory.acts_as_tape (data : Bytes) (mode : OpenMode) (calls : List Call)
    (hword : data.length ≤ maxWord) :
    let tape := (Tape.start data).performAll mode calls
    ∃ c, (ofBytes data mode).performAll calls = (tape.1, c) ∧
      (ofBytes data mode).performAll? calls = some (tape.1, c) ∧
      c.Shows tape.2 ∧ c.mode = mode ∧ tape.2.bytes.length = data.length := by
  have hstart := Tape.Stays.start data mode
  have hend := hstart.performAll calls
  have hrun := hstart.performAll_channel hword calls
  have hrun? := hstart.performAll?_channel hword calls
  rw [hrun] at hrun?
  rw [Tape.channel_start] at hrun hrun?
  exact ⟨_, hrun, hrun?, hend.shows, rfl, hend.length⟩

theorem InMemory.acts_as_tape_overwritten :
    let mode : OpenMode := { read := true, write := true }
    let calls : List Call :=
      [.write [88], .read 2, .unread 98, .seek (.finish (-1)) .put, .writeByte 89, .writeByte 90,
        .seek (.current (-9223372036854775808)) .get, .read 5, .seek (.current 0) .put]
    ∃ c, (ofBytes [97, 98, 99] mode).performAll calls =
        ([.count 1, .bytes [88, 98], .flag true, .position (.ok 2), .flag true, .flag false,
          .position (.ok 0), .bytes [88, 98, 89], .position (.ok 3)], c) ∧
      c.data = [88, 98, 89] ∧ c.getPos = 3 ∧ c.putPos = 3 := by
  intro mode calls
  obtain ⟨c, hrun, -, hshows, -, -⟩ := acts_as_tape [97, 98, 99] mode calls (by decide)
  have htape : (Tape.start [97, 98, 99]).performAll mode calls =
      ([.count 1, .bytes [88, 98], .flag true, .position (.ok 2), .flag true, .flag false,
        .position (.ok 0), .bytes [88, 98, 89], .position (.ok 3)],
        ⟨[88, 98, 89], 3, 3, Nat.le_refl _, Nat.le_refl _⟩) := by
    unfold calls mode
    cbv
  rw [htape] at hrun hshows
  exact ⟨c, hrun, hshows.data, hshows.getPos, hshows.putPos⟩

end ByteChannel
