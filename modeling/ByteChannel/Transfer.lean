import ByteChannel.Device

/-!
# Whole transfers

A device may move a few bytes at a time. The transfers here repeat a call while it is
interrupted, and then go on until everything is moved, the device has no more, or it
fails. They report what was moved and, apart from that, the failure that stopped them.
-/

namespace ByteChannel

/-- How much of an output was taken, in bytes of its source. -/
structure Transfer where
  done : Nat
  error : Option IoError
  deriving DecidableEq, Repr

/-- The bytes of an input. -/
structure Intake where
  bytes : Bytes
  error : Option IoError
  deriving DecidableEq, Repr

def Transfer.isComplete (t : Transfer) (expected : Nat) : Bool := t.done == expected

def Intake.isComplete (t : Intake) (expected : Nat) : Bool := t.bytes.length == expected

variable {σ : Type} [Device σ]

def readChunk (s : σ) (n : Nat) : Except IoError Bytes × σ :=
  let r := Device.read s n
  match _h : r.1 with
  | .ok bs => (.ok bs, r.2)
  | .error e => if _hk : e.kind = .interrupted then readChunk r.2 n else (.error e, r.2)
termination_by Device.patience s
decreasing_by exact Device.patience_read_lt _h _hk

def writeChunk (s : σ) (src : Bytes) : Except IoError Nat × σ :=
  let r := Device.write s src
  match _h : r.1 with
  | .ok k => (.ok k, r.2)
  | .error e => if _hk : e.kind = .interrupted then writeChunk r.2 src else (.error e, r.2)
termination_by Device.patience s
decreasing_by exact Device.patience_write_lt _h _hk

/-- Reads until `n` bytes are there, the device has no more, or it fails. -/
def readFully (s : σ) (n : Nat) : Intake × σ :=
  if _hn : n = 0 then (⟨[], none⟩, s)
  else
    let r := readChunk s n
    match r.1 with
    | .error e => (⟨[], some e⟩, r.2)
    | .ok bs =>
      if _hb : bs = [] then (⟨[], none⟩, r.2)
      else
        let rest := readFully r.2 (n - bs.length)
        (⟨bs ++ rest.1.bytes, rest.1.error⟩, rest.2)
termination_by n
decreasing_by
  have := List.length_pos_iff.2 _hb
  omega

/-- Writes until all is taken or the device fails; taking nothing is a failure. -/
def writeFully (s : σ) (src : Bytes) : Transfer × σ :=
  if _hs : src = [] then (⟨0, none⟩, s)
  else
    let r := writeChunk s src
    match r.1 with
    | .error e => (⟨0, some e⟩, r.2)
    | .ok k =>
      if _hk : k = 0 then (⟨0, some .nothingAccepted⟩, r.2)
      else
        let rest := writeFully r.2 (src.drop k)
        (⟨k + rest.1.done, rest.1.error⟩, rest.2)
termination_by src.length
decreasing_by
  have := List.length_pos_iff.2 _hs
  simp only [List.length_drop]
  omega

theorem length_readChunk_le {s : σ} {n : Nat} {bs : Bytes} (h : (readChunk s n).1 = .ok bs) :
    bs.length ≤ n := by
  fun_induction readChunk s n with
  | case1 s r bs' hr =>
    cases h
    exact Device.length_read_le hr
  | case2 s r e hr hk ih => exact ih h
  | case3 s r e hr hk => cases h

theorem length_bytes_readFully_le (s : σ) (n : Nat) : (readFully s n).1.bytes.length ≤ n := by
  fun_induction readFully s n with
  | case1 => exact Nat.le_refl _
  | case2 => exact Nat.zero_le _
  | case3 => exact Nat.zero_le _
  | case4 s n hn r bs hr hb rest ih =>
    have := length_readChunk_le hr
    have : rest.1.bytes.length ≤ n - bs.length := ih
    simp only [List.length_append]
    omega

theorem readFully_zero (s : σ) : readFully s 0 = (⟨[], none⟩, s) := by
  rw [readFully, dif_pos rfl]

/-- A failure leaves something that was not taken. -/
theorem done_writeFully_lt (s : σ) (src : Bytes) (h : (writeFully s src).1.error ≠ none) :
    (writeFully s src).1.done < src.length := by
  fun_induction writeFully s src with
  | case1 => exact absurd rfl h
  | case2 s src hs => exact List.length_pos_iff.2 hs
  | case3 s src hs => exact List.length_pos_iff.2 hs
  | case4 s src hs r k hr hk rest ih =>
    have hlt : rest.1.done < (src.drop k).length := ih h
    rw [List.length_drop] at hlt
    dsimp only
    omega

theorem writeFully_nil (s : σ) : writeFully s [] = (⟨0, none⟩, s) := by
  rw [writeFully, dif_pos rfl]

end ByteChannel
