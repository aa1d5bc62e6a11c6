import ByteChannel.Mode
import ByteChannel.Proofs.Buffered.Call
import ByteChannel.Proofs.File

/-!
# Calls on a file without a buffer

What each call answers where there are only bytes and one position, and what it leaves. Two things
are left open: how much a fill shows, and whether a change of buffer finds the old one empty.
Neither is a property of the file.
-/

namespace ByteChannel.File

def input (f : File) (mode : OpenMode) : Bytes := if mode.isReadable then f.rest else []

/-- A mode without output refuses it. -/
def output (f : File) (mode : OpenMode) (src : Bytes) : File :=
  if mode.isWritable then f.write src else f

def seek? (f : File) (top : Nat) (o : Origin) : Option Nat :=
  o.targetWithin? f.pos f.bytes.length top

/-- Whether an answer is the file's answer to a call. Positions above `top` are out of reach. -/
def Answers (f : File) (mode : OpenMode) (top : Nat) : Call → Answer → Prop
  | .read n, .bytes bs => bs = (f.input mode).take n
  | .readByte, .byte b => b = (f.input mode).head?
  | .peek, .byte b => b = (f.input mode).head?
  | .fill _, .shown r =>
    ∃ bs, r = .ok bs ∧ bs <+: f.input mode ∧ (bs = [] → f.input mode = [])
  | .write src, .count k => k = if mode.isWritable then src.length else 0
  | .writeByte _, .flag accepted => accepted = mode.isWritable
  | .overflow _, .flag accepted => accepted = mode.isWritable
  | .flush, .outcome r => r = .ok ()
  | .seek o, .position r =>
    match f.seek? top o with
    | some pos => r = .ok pos
    | none => ∃ e, r = .error (.io e)
  | .tell, .position r =>
    match f.seek? top (.current 0) with
    | some pos => r = .ok pos
    | none => ∃ e, r = .error (.io e)
  | .install _, .outcome r => r = .ok () ∨ r = .error .bufferHoldsInput
  | .resize _, .outcome r => r = .ok () ∨ r = .error .bufferHoldsInput
  | _, _ => False

/-- The file after a call. The answer matters only for what a fill has shown. -/
def after (f : File) (mode : OpenMode) (top : Nat) : Call → Answer → File
  | .read n, _ => f.advance ((f.input mode).take n).length
  | .readByte, _ => f.advance ((f.input mode).take 1).length
  | .fill n, .shown (.ok bs) => f.advance (bs.take n).length
  | .write src, _ => f.output mode src
  | .writeByte b, _ => f.output mode [b]
  | .overflow b, _ => f.output mode [b]
  | .seek o, _ => { f with pos := (f.seek? top o).getD f.pos }
  | _, _ => f

def AnswersAll (f : File) (mode : OpenMode) (top : Nat) : List Call → List Answer → Prop
  | call :: calls, a :: as =>
    f.Answers mode top call a ∧ (f.after mode top call a).AnswersAll mode top calls as
  | [], [] => True
  | _, _ => False

def afterAll (f : File) (mode : OpenMode) (top : Nat) : List Call → List Answer → File
  | call :: calls, a :: as => (f.after mode top call a).afterAll mode top calls as
  | _, _ => f

theorem getD_seek?_here (f : File) (top : Nat) :
    (f.seek? top (.current 0)).getD f.pos = f.pos := by
  cases h : f.seek? top (.current 0) with
  | none => rfl
  | some pos =>
    rw [seek?, Origin.targetWithin?_eq_some_iff, Origin.target] at h
    rw [Option.getD_some]
    omega

theorem length_le_output (f : File) (mode : OpenMode) (src : Bytes) :
    f.bytes.length ≤ (f.output mode src).bytes.length := by
  unfold output
  split
  · exact f.length_le_write src
  · exact Nat.le_refl _

/-- A file never gets shorter. -/
theorem length_le_after (f : File) (mode : OpenMode) (top : Nat) (call : Call) (a : Answer) :
    f.bytes.length ≤ (f.after mode top call a).bytes.length := by
  cases call with
  | write src => exact f.length_le_output mode src
  | writeByte b => exact f.length_le_output mode [b]
  | overflow b => exact f.length_le_output mode [b]
  | fill n =>
    rcases a with _ | _ | ⟨_ | _⟩ | _ | _ | _ | _ <;> exact Nat.le_refl _
  | _ => exact Nat.le_refl _

theorem length_le_afterAll (f : File) (mode : OpenMode) (top : Nat) (calls : List Call)
    (as : List Answer) : f.bytes.length ≤ (f.afterAll mode top calls as).bytes.length := by
  induction calls generalizing f as with
  | nil => exact Nat.le_refl _
  | cons call calls ih =>
    cases as with
    | nil => exact Nat.le_refl _
    | cons a as => exact Nat.le_trans (f.length_le_after mode top call a) (ih _ as)

end ByteChannel.File
