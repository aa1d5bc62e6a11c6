import Mathlib
import ByteChannel.Mapped.Device
import ByteChannel.Proofs.Device.Call
import ByteChannel.Proofs.File
import ByteChannel.Proofs.Mapped.Entry

/-!
# A mapped channel as a file of fixed length

As a device an open channel over a shared mapping is bytes of fixed length with one position,
wherever its windows lie. Input ends and output is cut at the last byte, and a seek stays between
the ends. A write-back that fails is reported late: by a transfer that moved nothing.
-/

namespace ByteChannel

namespace File

/-- The target of a seek that stays between the ends of the bytes. -/
def clamp (f : File) (o : Origin) : Nat :=
  (max 0 (min (o.target f.pos f.bytes.length) f.bytes.length)).toNat

/-- How much of `n` bytes lies between the position and the end. -/
def span (f : File) (n : Nat) : Nat := min n (f.bytes.length - f.pos)

/-- A call on bytes that become neither more nor fewer. -/
def performFixed (f : File) : IoCall → IoAnswer × File
  | .read n => (.bytes (.ok (f.rest.take n)), f.advance (f.span n))
  | .write src =>
    if src ≠ [] ∧ f.pos = f.bytes.length then (.number (.error .endOfMapping), f)
    else (.number (.ok (f.span src.length)), f.write (src.take (f.span src.length)))
  | .seek o => (.number (.ok (f.clamp o)), { f with pos := f.clamp o })

def performAllFixed (f : File) : List IoCall → List IoAnswer × File
  | [] => ([], f)
  | call :: calls =>
    let r := f.performFixed call
    let more := r.2.performAllFixed calls
    (r.1 :: more.1, more.2)

theorem take_rest_eq_slice (f : File) (tail : Bytes) (hpos : f.pos ≤ f.bytes.length) (n : Nat) :
    f.rest.take n = slice (f.bytes ++ tail) f.pos (f.pos + f.span n) := by
  have hspan : f.span n = min n (f.bytes.drop f.pos).length := by rw [List.length_drop, span]
  have hlen : f.span n ≤ (f.bytes.drop f.pos).length := hspan ▸ Nat.min_le_right _ _
  rw [slice, Nat.add_sub_cancel_left, List.drop_append_of_le_length hpos,
    List.take_append_of_le_length hlen, rest, List.take_eq_take_iff]
  omega

theorem clamp_eq (f : File) (o : Origin) (hpos : f.pos ≤ f.bytes.length)
    (hlen : f.bytes.length ≤ maxWord) : f.clamp o = o.clampedTarget f.pos f.bytes.length := by
  rw [clamp, ← o.clampedTarget_eq hpos hlen, Int.toNat_natCast]

theorem span_eq_zero_iff (f : File) {n : Nat} (hn : n ≠ 0) (hpos : f.pos ≤ f.bytes.length) :
    f.span n = 0 ↔ f.pos = f.bytes.length := by
  rw [span]
  omega

theorem pos_add_span_le (f : File) (n : Nat) (hpos : f.pos ≤ f.bytes.length) :
    f.pos + f.span n ≤ f.bytes.length := by
  rw [span]
  omega

end File

namespace IoAnswer

/-- An answer is the one expected, or reports a failure from before in place of moving nothing. -/
inductive Meets (fails : ChannelError → Prop) : IoCall → IoAnswer → IoAnswer → Prop
  | same (call : IoCall) (a : IoAnswer) : Meets fails call a a
  | read {n : Nat} {e : ChannelError} (hn : n ≠ 0) (he : fails e) :
    Meets fails (.read n) (.bytes (.ok [])) (.bytes (.error e.toIoError))
  | write {src : Bytes} {e : ChannelError} (he : fails e) :
    Meets fails (.write src) (.number (.error .endOfMapping)) (.number (.error e.toIoError))

def MeetsAll (fails : ChannelError → Prop) : List IoCall → List IoAnswer → List IoAnswer → Prop
  | call :: calls, a :: as, b :: bs => Meets fails call a b ∧ MeetsAll fails calls as bs
  | [], [], [] => True
  | _, _, _ => False

variable {fails : ChannelError → Prop}

theorem Meets.eq {call : IoCall} {a b : IoAnswer} (h : Meets fails call a b)
    (hf : ∀ e, ¬fails e) : b = a := by
  cases h with
  | same => rfl
  | read hn he => exact absurd he (hf _)
  | write he => exact absurd he (hf _)

/-- Where nothing can have failed before the answers are those expected. -/
theorem MeetsAll.eq {calls : List IoCall} {as bs : List IoAnswer}
    (h : MeetsAll fails calls as bs) (hf : ∀ e, ¬fails e) : bs = as := by
  induction calls generalizing as bs with
  | nil =>
    match as, bs, h with
    | [], [], _ => rfl
  | cons call calls ih =>
    match as, bs, h with
    | a :: as, b :: bs, h => rw [h.1.eq hf, ih h.2]

end IoAnswer

namespace Mapped

open IoAnswer (Meets MeetsAll)

/-- The channel shows a file of fixed length, which the mapping may show a part of only. -/
structure Fixed (c : Mapped) (i : Nat) (o : Opening) (f : File) (tail : Bytes) : Prop
    extends At c i o f.pos where
  readable : c.mode.isReadable = true
  writable : c.mode.isWritable = true
  shared : o.mode = .readWrite
  grants : c.table.Grants o
  bytes_eq : (c.table.file o).bytes = f.bytes ++ tail
  length_eq : f.bytes.length = o.length
  length_le : o.length ≤ maxWord
  latches : c.LatchesSync

namespace Fixed

variable {c d : Mapped} {i : Nat} {o : Opening} {f : File} {tail : Bytes}

theorem pos_le (h : c.Fixed i o f tail) : f.pos ≤ f.bytes.length := by
  rw [h.length_eq, ← h.getPos_eq]
  exact h.getPos_le

theorem keeps (h : c.Fixed i o f tail) (k : Keeps c d) {pos : Nat} (hd : d.At i o pos)
    (hsync : d.LatchesSync) : d.Fixed i o { f with pos := pos } tail where
  toAt := hd
  readable := k.mode ▸ h.readable
  writable := k.mode ▸ h.writable
  shared := h.shared
  grants := k.table.grants h.grants
  bytes_eq := by rw [k.table.file, h.bytes_eq]
  length_eq := h.length_eq
  length_le := h.length_le
  latches := hsync

theorem taken (h : c.Fixed i o f tail) : Fixed { c with error := none } i o f tail :=
  { h with latches := latchesSync_none }

theorem read [Paging] (h : c.Fixed i o f tail) (n : Nat) :
    Meets c.table.LosesSync (.read n) (f.performFixed (.read n)).1
        (Device.perform c (.read n)).1 ∧
      c.table.Apart o (Device.perform c (.read n)).2.table ∧
      Fixed (Device.perform c (.read n)).2 i o (f.performFixed (.read n)).2 tail := by
  obtain ⟨m, d, hread, -, hd, hkeeps, hgranted⟩ :=
    h.toFramed.read h.readable (by simp [h.shared]) n
  obtain ⟨hm, hsync⟩ := hgranted h.grants.next
  have hm : m = f.span n := by rw [hm, File.span, h.getPos_eq, h.length_eq]
  rw [h.getPos_eq, h.bytes_eq, hm, ← f.take_rest_eq_slice _ h.pos_le] at hread
  rw [h.getPos_eq, hm] at hd
  have hapart := hkeeps.table.apart o
  have hopen : ¬c.isOpen = false := by simp [h.isOpen]
  have hd := h.keeps hkeeps hd (hsync h.latches)
  change Meets _ _ _ (.bytes (c.tryRead n).1) ∧ c.table.Apart o (c.tryRead n).2.table ∧
    Fixed (c.tryRead n).2 i o _ tail
  unfold tryRead
  rw [if_neg hopen, hread]
  dsimp only [File.performFixed]
  by_cases hnone : f.rest.take n = [] ∧ n ≠ 0
  · rw [if_pos hnone, hnone.1]
    cases herr : d.error with
    | none => exact ⟨.same _ _, hapart, hd⟩
    | some e =>
      exact ⟨.read hnone.2 (hapart.losesSync_eq ▸ hd.latches e herr), hapart, hd.taken⟩
  · rw [if_neg hnone]
    exact ⟨.same _ _, hapart, hd⟩

/-- After bytes were stored at the position. -/
theorem lay (h : c.Fixed i o f tail) {bs : Bytes} (hfits : f.pos + bs.length ≤ f.bytes.length)
    (k : Keeps { c with table := c.table.lay o f.pos bs } d)
    (hd : d.At i o (f.pos + bs.length)) (hsync : d.LatchesSync) :
    d.Fixed i o (f.write bs) tail where
  toAt := by
    rw [File.pos_write]
    exact hd
  readable := k.mode ▸ h.readable
  writable := k.mode ▸ h.writable
  shared := h.shared
  grants := k.table.grants (h.grants.lay o _ _)
  bytes_eq := by
    obtain ⟨name, hname⟩ := h.grants.next.name
    have hpos : f.pos ≤ (c.table.file o).bytes.length := by
      rw [h.bytes_eq, List.length_append]
      exact Nat.le_trans h.pos_le (Nat.le_add_right _ _)
    rw [k.table.file, MapTable.bytes_file_lay hname bs hpos, h.bytes_eq,
      overwrite_append_of_fits _ _ _ hfits, File.bytes_write f bs h.pos_le]
  length_eq := by
    rw [File.bytes_write f bs h.pos_le, length_overwrite, Nat.max_eq_left hfits, h.length_eq]
  length_le := h.length_le
  latches := hsync

theorem write [Paging] (h : c.Fixed i o f tail) (src : Bytes) :
    Meets c.table.LosesSync (.write src) (f.performFixed (.write src)).1
        (Device.perform c (.write src)).1 ∧
      c.table.Apart o (Device.perform c (.write src)).2.table ∧
      Fixed (Device.perform c (.write src)).2 i o (f.performFixed (.write src)).2 tail := by
  obtain ⟨m, d, hwrite, hm, hd, hkeeps, hgranted⟩ := h.toFramed.write h.writable h.shared src
  obtain ⟨hspan, hsync⟩ := hgranted h.grants
  have hlen : (src.take m).length = m := by
    rw [List.length_take]
    omega
  rw [h.putPos_eq, ← h.length_eq] at hspan
  have hspan : m = f.span src.length := hspan
  rw [h.putPos_eq] at hd hkeeps
  have hfits : f.pos + (src.take m).length ≤ f.bytes.length := by
    rw [hlen, hspan]
    exact f.pos_add_span_le _ h.pos_le
  have hd := h.lay hfits hkeeps (hlen.symm ▸ hd) (hsync h.latches)
  have hapart := (c.table.apart_lay o f.pos (src.take m)).trans (hkeeps.table.apart o)
  change Meets _ _ _ (.number (c.tryWrite src).1) ∧ c.table.Apart o (c.tryWrite src).2.table ∧
    Fixed (c.tryWrite src).2 i o _ tail
  unfold tryWrite
  rw [hwrite]
  dsimp only [File.performFixed]
  by_cases hsrc : src = []
  · have hfull : ¬(m = 0 ∧ src ≠ []) := fun hb => hb.2 hsrc
    have hfull' : ¬(src ≠ [] ∧ f.pos = f.bytes.length) := fun hb => hb.1 hsrc
    rw [if_neg hfull, if_neg hfull', ← hspan]
    exact ⟨.same _ _, hapart, hd⟩
  · have hzero : m = 0 ↔ f.pos = f.bytes.length :=
      hspan ▸ f.span_eq_zero_iff (mt List.length_eq_zero_iff.1 hsrc) h.pos_le
    by_cases hend : f.pos = f.bytes.length
    · have hm0 : m = 0 := hzero.2 hend
      rw [hm0, List.take_zero, File.write_nil] at hd
      rw [if_pos ⟨hsrc, hend⟩, if_pos ⟨hm0, hsrc⟩]
      cases herr : d.error with
      | none => exact ⟨.same _ _, hapart, hd.taken⟩
      | some e => exact ⟨.write (hapart.losesSync_eq ▸ hd.latches e herr), hapart, hd.taken⟩
    · rw [if_neg (fun hb => hend hb.2), if_neg (fun hb => hend (hzero.1 hb.1)), ← hspan]
      exact ⟨.same _ _, hapart, hd⟩

theorem seek [Paging] (h : c.Fixed i o f tail) (origin : Origin) :
    Meets c.table.LosesSync (.seek origin) (f.performFixed (.seek origin)).1
        (Device.perform c (.seek origin)).1 ∧
      c.table.Apart o (Device.perform c (.seek origin)).2.table ∧
      Fixed (Device.perform c (.seek origin)).2 i o (f.performFixed (.seek origin)).2 tail := by
  obtain ⟨d, hseek, hd, hkeeps, hsync⟩ := h.toFramed.seek h.length_le origin .both
  have hpos : origin.clampedTarget (if Side.both.includesGet then c.getPos else c.putPos) o.length =
      f.clamp origin := by
    change origin.clampedTarget c.getPos o.length = f.clamp origin
    rw [h.getPos_eq, ← h.length_eq]
    exact (f.clamp_eq origin h.pos_le (h.length_eq ▸ h.length_le)).symm
  rw [hpos] at hseek hd
  change Meets _ _ _ (.number (c.trySeek origin).1) ∧ c.table.Apart o (c.trySeek origin).2.table ∧
    Fixed (c.trySeek origin).2 i o _ tail
  unfold trySeek
  rw [hseek]
  exact ⟨.same _ _, hkeeps.table.apart o, h.keeps hkeeps hd (hsync h.latches)⟩

theorem perform [Paging] (h : c.Fixed i o f tail) (call : IoCall) :
    Meets c.table.LosesSync call (f.performFixed call).1 (Device.perform c call).1 ∧
      c.table.Apart o (Device.perform c call).2.table ∧
      Fixed (Device.perform c call).2 i o (f.performFixed call).2 tail := by
  cases call with
  | read n => exact h.read n
  | write src => exact h.write src
  | seek origin => exact h.seek origin

theorem performAll [Paging] (h : c.Fixed i o f tail) (calls : List IoCall) :
    MeetsAll c.table.LosesSync calls (f.performAllFixed calls).1 (Device.performAll c calls).1 ∧
      c.table.Apart o (Device.performAll c calls).2.table ∧
      Fixed (Device.performAll c calls).2 i o (f.performAllFixed calls).2 tail := by
  induction calls generalizing c f with
  | nil => exact ⟨trivial, .refl o _, h⟩
  | cons call calls ih =>
    obtain ⟨hmeets, hapart, hd⟩ := h.perform call
    obtain ⟨hall, haparts, hlast⟩ := ih hd
    rw [hapart.losesSync_eq] at hall
    exact ⟨⟨hmeets, hall⟩, hapart.trans haparts, hlast⟩

end Fixed

/-- An opened channel that reads and writes over a shared mapping answers every sequence of calls as
bytes of fixed length with one position do, wherever the windows come to lie, and leaves those bytes
in the file. What lies behind the mapping and every other file stay as they are. Only a write-back
that fails can show: a transfer that would move nothing reports it. -/
theorem answers_as_fixed_file [Paging] {c c' : Mapped} {entry : Entry} {o : Opening}
    {bytes tail : Bytes}
    (hentry : c.enter entry = (.ok (), c')) (hreads : entry.mode.isReadable = true)
    (hwrites : entry.mode.isWritable = true) (ho : c'.mapping.opening? c'.table = some o)
    (hshared : o.mode = .readWrite) (hgrants : c'.table.Grants o)
    (hfile : (c'.table.file o).bytes = bytes ++ tail) (hlen : bytes.length = o.length)
    (hword : bytes.length ≤ maxWord) (calls : List IoCall) :
    let run := Device.performAll c' calls
    let ref := File.performAllFixed ⟨bytes, 0⟩ calls
    MeetsAll c'.table.LosesSync calls ref.1 run.1 ∧
      ((∀ n, c'.table.refusesSync n = false) → run.1 = ref.1) ∧
      (run.2.table.file o).bytes = ref.2.bytes ++ tail ∧ ref.2.bytes.length = bytes.length ∧
      ∀ name, o.name ≠ some name → run.2.table.disk.store? name = c'.table.disk.store? name := by
  intro run ref
  obtain ⟨i, hat, hlatches, hmode⟩ := enter_at hentry ho
  have hfixed : c'.Fixed i o.plain ⟨bytes, 0⟩ tail :=
    { hat with
      readable := hmode ▸ hreads
      writable := hmode ▸ hwrites
      shared := hshared
      grants := ⟨hgrants.allows, hgrants.never_refuses⟩
      bytes_eq := hfile
      length_eq := hlen
      length_le := hlen ▸ hword
      latches := hlatches }
  obtain ⟨hmeets, hapart, hlast⟩ := hfixed.performAll calls
  refine ⟨hmeets, fun hsync => hmeets.eq ?_, hlast.bytes_eq, hlast.length_eq.trans hlen.symm,
    hapart.store?⟩
  rintro e ⟨-, n, hn⟩
  rw [hsync n] at hn
  cases hn

/-- The first four bytes of a file of five: output is cut at the fourth, and more of it fails. -/
theorem answers_as_fixed_file_cut :
    let table : MapTable :=
      { disk := ⟨[("f", .ofBytes [1, 2, 3, 4, 5])]⟩
        openings := [{
          name := some "f"
          path := none
          length := 4
          mode := .readWrite
          readable := true
          writable := true }] }
    let entry : Entry := .shared ⟨some 0⟩ { read := true, write := true }
    let calls : List IoCall := [.read 3, .write [7, 8], .write [9], .seek (.finish (-2)), .read 5]
    ∃ c', enter { table := table } entry = (.ok (), c') ∧
      (Device.performAll c' calls).1 = [.bytes (.ok [1, 2, 3]), .number (.ok 1),
        .number (.error .endOfMapping), .number (.ok 2), .bytes (.ok [3, 7])] ∧
      ((Device.performAll c' calls).2.table.disk.bytes "f") = [1, 2, 3, 7, 5] := by
  intro table entry calls
  let c' := (enter { table := table } entry).2
  let o : Opening :=
    { name := some "f"
      path := none
      length := 4
      mode := .readWrite
      readable := true
      writable := true
      holders := 2 }
  have hentry : enter { table := table } entry = (.ok (), c') := rfl
  have ho : c'.mapping.opening? c'.table = some o := rfl
  have hfile : (c'.table.file o).bytes = [1, 2, 3, 4] ++ [5] := by cbv
  obtain ⟨-, hanswers, hbytes, -⟩ := answers_as_fixed_file hentry rfl rfl ho rfl
    ⟨rfl, fun _ => rfl⟩ hfile rfl (by decide) calls
  have hname (t : MapTable) : (t.file o).bytes = t.disk.bytes "f" := rfl
  exact ⟨c', hentry, (hanswers fun _ => rfl).trans (by cbv),
    (hname _).symm.trans (hbytes.trans (by cbv))⟩

end Mapped

end ByteChannel
